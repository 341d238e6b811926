import ExchangeCore.Core.Types
import ExchangeCore.Lib.LinkedList

/-!
# The order slab and its free list

Orders live in one contiguous vector and are addressed by index.  A released
node goes on a free list threaded through its `next` link and is reused before
the vector grows.  A handle is a slab index and the null handle is `none`: the
source asserts that the slab stays below the largest 32-bit index, so runs past
that assertion are not modelled.
-/

namespace ExchangeCore

open LinkedList

/-- Index of an order inside the slab. -/
abbrev OrderHandle := Nat

/-- An order with its links within one price level's queue. -/
structure OrderNode where
  order : Order := {}
  prev : Option OrderHandle := none
  next : Option OrderHandle := none
  deriving DecidableEq, Inhabited

structure OrderPool where
  nodes : List OrderNode := []
  /-- Nodes the vector holds without reallocating. -/
  capacity : Nat := 0
  freeHead : Option OrderHandle := none
  live : Nat := 0
  highWaterMark : Nat := 0
  growthEvents : Nat := 0
  deriving DecidableEq, Inhabited

namespace OrderPool

/-- A fresh slab with room reserved for `initialCapacity` orders. -/
def create (initialCapacity : Nat) : OrderPool := { capacity := initialCapacity }

variable (pool : OrderPool)

def node (handle : OrderHandle) : OrderNode :=
  pool.nodes[handle]?.getD default

def order (handle : OrderHandle) : Order := (pool.node handle).order

def prev (handle : OrderHandle) : Option OrderHandle :=
  (pool.node handle).prev

def next (handle : OrderHandle) : Option OrderHandle :=
  (pool.node handle).next

def size : Nat := pool.nodes.length

/-- Write through a reference into the slab. -/
def modifyNode (handle : OrderHandle) (f : OrderNode → OrderNode) : OrderPool :=
  { pool with nodes := pool.nodes.modify handle f }

/-- Write the order of a node, leaving its links. -/
def setOrder (handle : OrderHandle) (order : Order) : OrderPool :=
  pool.modifyNode handle fun node => { node with order := order }

/-- Copy an order into the slab, reusing a released node when there is one. -/
def acquire (order : Order) : OrderPool × OrderHandle :=
  let counted (pool : OrderPool) : OrderPool :=
    { pool with
      live := pool.live + 1
      highWaterMark := max pool.highWaterMark (pool.live + 1) }
  match pool.freeHead with
  | some handle =>
    let reused := { pool with freeHead := pool.next handle }.modifyNode handle
      fun _ => { order := order, prev := none, next := none }
    (counted reused, handle)
  | none =>
    let willGrow := pool.nodes.length == pool.capacity
    let grown :=
      { pool with
        nodes := pool.nodes ++ [{ order := order, prev := none, next := none }]
        -- The vector's own growth policy: at least one, else double.
        capacity := if willGrow then max 1 (2 * pool.capacity) else pool.capacity
        growthEvents := if willGrow then pool.growthEvents + 1 else pool.growthEvents }
    (counted grown, pool.nodes.length)

/-- Return a node to the free list. -/
def release (handle : OrderHandle) : OrderPool :=
  { pool.modifyNode handle fun node =>
      { node with prev := none, next := pool.freeHead } with
    freeHead := some handle
    live := pool.live - 1 }

/-! ## Views of an updated slab -/

section Views

variable {handle : OrderHandle} (f : OrderNode → OrderNode)

theorem node_modifyNode (h : OrderHandle) (x : OrderHandle) (hLt : h < pool.size) :
    (pool.modifyNode h f).node x = if x = h then f (pool.node h) else pool.node x := by
  unfold node modifyNode
  simp only [List.getElem?_modify]
  by_cases hx : x = h
  · subst hx
    have hSome : pool.nodes[x]? = some (pool.nodes.get ⟨x, hLt⟩) :=
      List.getElem?_eq_getElem hLt
    simp [hSome]
  · simp [hx, Ne.symm hx]

@[simp] theorem size_modifyNode (h : OrderHandle) : (pool.modifyNode h f).size = pool.size := by
  simp [size, modifyNode]

@[simp] theorem freeHead_modifyNode (h : OrderHandle) :
    (pool.modifyNode h f).freeHead = pool.freeHead := rfl

@[simp] theorem live_modifyNode (h : OrderHandle) :
    (pool.modifyNode h f).live = pool.live := rfl

end Views

@[simp] theorem size_setOrder (h : OrderHandle) (o : Order) :
    (pool.setOrder h o).size = pool.size := by
  simp [setOrder]

@[simp] theorem freeHead_setOrder (h : OrderHandle) (o : Order) :
    (pool.setOrder h o).freeHead = pool.freeHead := rfl

@[simp] theorem live_setOrder (h : OrderHandle) (o : Order) :
    (pool.setOrder h o).live = pool.live := rfl

variable {h handle : OrderHandle} {pool} {pool' : OrderPool} {free : List OrderHandle}

section

variable (pool) (hLt : h < pool.size) (o : Order) (x : OrderHandle)
include hLt

theorem node_setOrder :
    (pool.setOrder h o).node x =
      { pool.node x with order := if x = h then o else pool.order x } := by
  rw [setOrder, node_modifyNode pool _ h x hLt]
  split
  · next hx => rw [hx]
  · rfl

theorem order_setOrder : (pool.setOrder h o).order x = if x = h then o else pool.order x := by
  rw [order, node_setOrder pool hLt]

theorem prev_setOrder : (pool.setOrder h o).prev x = pool.prev x := by
  rw [prev, node_setOrder pool hLt, prev]

theorem next_setOrder : (pool.setOrder h o).next x = pool.next x := by
  rw [next, node_setOrder pool hLt, next]

end

/-! ## The free list -/

/-- The free list of a slab: released handles threaded through `next`. -/
structure FreeList (pool : OrderPool) (free : List OrderHandle) : Prop where
  head : pool.freeHead = free.head?
  chain : Forward pool.next free
  bounded : ∀ h ∈ free, h < pool.size
  nodup : free.Nodup

theorem freeList_create (initialCapacity : Nat) : FreeList (create initialCapacity) [] where
  head := rfl
  chain := forward_nil
  bounded := by simp
  nodup := List.nodup_nil

/-- The node is of the slab and not released. -/
def Allocated (pool : OrderPool) (h : OrderHandle) : Prop :=
  h < pool.size ∧ ∃ free, FreeList pool free ∧ h ∉ free

/-- A slab whose links on the free handles did not change keeps its free
list. -/
theorem FreeList.frame (hFree : FreeList pool free) (hHead : pool'.freeHead = pool.freeHead)
    (hSize : pool'.size = pool.size) (hNext : ∀ h ∈ free, pool'.next h = pool.next h) :
    FreeList pool' free where
  head := hHead.trans hFree.head
  chain := hFree.chain.congr hNext
  bounded := fun h hMem => by rw [hSize]; exact hFree.bounded h hMem
  nodup := hFree.nodup

/-- What `acquire` guarantees: a handle that was free or new, holding the order
with null links, every other node untouched. -/
structure Acquired (pool : OrderPool) (free : List OrderHandle) (o : Order)
    (pool' : OrderPool) (handle : OrderHandle) (free' : List OrderHandle) : Prop where
  freeList : FreeList pool' free'
  size_le : pool.size ≤ pool'.size
  handle_lt : handle < pool'.size
  covers : ∀ h, h < pool'.size ↔ h < pool.size ∨ h = handle
  source : free = handle :: free' ∨ (free = [] ∧ free' = [] ∧ handle = pool.size)
  order_new : pool'.order handle = o
  order_old : ∀ h, h ≠ handle → pool'.order h = pool.order h
  prev_old : ∀ h, h ≠ handle → pool'.prev h = pool.prev h
  next_old : ∀ h, h ≠ handle → pool'.next h = pool.next h
  live_eq : pool'.live = pool.live + 1

/-- The free list loses the handle and nothing else. -/
theorem Acquired.mem_free_iff {free' : List OrderHandle} {o : Order}
    (hAcquired : Acquired pool free o pool' handle free')
    (hNodup : free.Nodup) {x : OrderHandle} : x ∈ free' ↔ x ∈ free ∧ x ≠ handle := by
  rcases hAcquired.source with hReused | ⟨hNil, hNil', -⟩
  · rw [hReused] at hNodup ⊢
    have hNot := (List.nodup_cons.mp hNodup).1
    constructor
    · intro hx
      refine ⟨List.mem_cons_of_mem handle hx, ?_⟩
      rintro rfl
      exact hNot hx
    · rintro ⟨hx, hNe⟩
      exact (List.mem_cons.mp hx).resolve_left hNe
  · simp [hNil, hNil']

theorem acquire_spec (hFree : FreeList pool free) (o : Order) :
    ∃ free', Acquired pool free o (pool.acquire o).1 (pool.acquire o).2 free' := by
  cases free with
  | cons handle free' =>
    have hHead : pool.freeHead = some handle := hFree.head
    have hLt : handle < pool.size := hFree.bounded handle (by simp)
    have hFresh : handle ∉ free' := (List.nodup_cons.mp hFree.nodup).1
    obtain ⟨hNextHead, hChain⟩ := hFree.chain.of_cons
    let reused : OrderPool := { pool with freeHead := pool.next handle }
    have hNode : ∀ x, (pool.acquire o).1.node x =
        if x = handle then { order := o, prev := none, next := none } else pool.node x := by
      intro x
      have := node_modifyNode reused
        (fun _ => { order := o, prev := none, next := none }) handle x hLt
      simpa [acquire, hHead, node, modifyNode, reused] using this
    have hSize : (pool.acquire o).1.size = pool.size := by
      simp [acquire, hHead, size, modifyNode]
    have hHandle : (pool.acquire o).2 = handle := by simp [acquire, hHead]
    have hOldNext : ∀ x, x ≠ handle → (pool.acquire o).1.next x = pool.next x := by
      intro x hx
      simp [next, hNode, hx]
    refine ⟨free', ?_⟩
    rw [hHandle]
    exact
      { freeList :=
          { head := by simpa [acquire, hHead, modifyNode] using hNextHead
            chain := hChain.congr fun x hMem => hOldNext x (by rintro rfl; exact hFresh hMem)
            bounded := fun x hMem => by
              rw [hSize]
              exact hFree.bounded x (by simp [hMem])
            nodup := (List.nodup_cons.mp hFree.nodup).2 }
        size_le := hSize.ge
        handle_lt := by rw [hSize]; exact hLt
        covers := fun x => by
          rw [hSize]
          constructor
          · exact Or.inl
          · rintro (h | rfl)
            · exact h
            · exact hLt
        source := Or.inl rfl
        order_new := by simp [order, hNode]
        order_old := fun x hx => by simp [order, hNode, hx]
        prev_old := fun x hx => by simp [prev, hNode, hx]
        next_old := hOldNext
        live_eq := by simp [acquire, hHead, modifyNode] }
  | nil =>
    have hHead : pool.freeHead = none := hFree.head
    have hNodes : (pool.acquire o).1.nodes =
        pool.nodes ++ [{ order := o, prev := none, next := none }] := by
      simp [acquire, hHead]
    have hHandle : (pool.acquire o).2 = pool.size := by simp [acquire, hHead, size]
    have hOld : ∀ x, x ≠ pool.size → (pool.acquire o).1.node x = pool.node x := by
      intro x hx
      unfold node
      rw [hNodes]
      rcases Nat.lt_or_gt_of_ne hx with hlt | hgt
      · rw [List.getElem?_append_left hlt]
      · rw [List.getElem?_eq_none (by simp [size] at hgt ⊢; omega),
          List.getElem?_eq_none (by simp [size] at hgt ⊢; omega)]
    have hNew : (pool.acquire o).1.node pool.size =
        { order := o, prev := none, next := none } := by
      simp [node, hNodes, size]
    refine ⟨[], ?_⟩
    rw [hHandle]
    exact
      { freeList :=
          { head := by simp [acquire, hHead]
            chain := forward_nil
            bounded := by simp
            nodup := List.nodup_nil }
        size_le := by simp [size, hNodes]
        handle_lt := by simp [size, hNodes]
        covers := fun x => by simp [size, hNodes]; omega
        source := Or.inr ⟨rfl, rfl, rfl⟩
        order_new := by simp [order, hNew]
        order_old := fun x hx => by simp [order, hOld x hx]
        prev_old := fun x hx => by simp [prev, hOld x hx]
        next_old := fun x hx => by simp [next, hOld x hx]
        live_eq := by simp [acquire, hHead] }

section Release

variable (pool) (hLt : handle < pool.size)

@[simp] theorem size_release (h : OrderHandle) : (pool.release h).size = pool.size := by
  simp [release, size, modifyNode]

@[simp] theorem live_release (h : OrderHandle) : (pool.release h).live = pool.live - 1 := rfl

include hLt

theorem node_release (x : OrderHandle) : (pool.release handle).node x =
    if x = handle then { pool.node handle with prev := none, next := pool.freeHead }
    else pool.node x :=
  node_modifyNode pool _ handle x hLt

theorem order_release (x : OrderHandle) : (pool.release handle).order x = pool.order x := by
  rw [order, node_release pool hLt]
  split
  · next hx => rw [hx, order]
  · rfl

theorem prev_release_ne {x : OrderHandle} (hx : x ≠ handle) :
    (pool.release handle).prev x = pool.prev x := by
  rw [prev, node_release pool hLt, if_neg hx, prev]

theorem next_release_ne {x : OrderHandle} (hx : x ≠ handle) :
    (pool.release handle).next x = pool.next x := by
  rw [next, node_release pool hLt, if_neg hx, next]

end Release

/-- Releasing a handle that is not free puts it in front of the free list. -/
theorem FreeList.release (hFree : FreeList pool free) (hLt : handle < pool.size)
    (hNot : handle ∉ free) : FreeList (pool.release handle) (handle :: free) where
  head := rfl
  chain := by
    refine Forward.cons (hFree.chain.congr fun x hMem => ?_) ?_
    · exact next_release_ne pool hLt (by rintro rfl; exact hNot hMem)
    · rw [next, node_release pool hLt, if_pos rfl, hFree.head]
  bounded := by
    intro x hMem
    rw [size_release]
    rcases List.mem_cons.mp hMem with rfl | hMem
    · exact hLt
    · exact hFree.bounded x hMem
  nodup := List.nodup_cons.mpr ⟨hNot, hFree.nodup⟩

end OrderPool
end ExchangeCore
