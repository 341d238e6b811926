import Mathlib.Data.List.Perm.Subperm
import ExchangeCore.Core.OrderPool

/-!
# The queue of one price level

A level is an intrusive doubly linked list threaded through the slab, with the
sum of the resting remainders and the number of orders kept beside it.  The
level owns no storage, so each operation takes the slab and returns it.

`Holds pool level hs` says that the level's queue is exactly the handles `hs`.
The total is a 64-bit word: it is always the word of the true sum, and equals
the sum whenever the sum fits.
-/

namespace ExchangeCore

open LinkedList OrderPool

@[ext]
structure PriceLevel where
  head : Option OrderHandle := none
  tail : Option OrderHandle := none
  totalQuantity : Nat := 0
  orderCount : Nat := 0
  deriving DecidableEq, Inhabited

namespace PriceLevel

section

variable (level : PriceLevel)

def front : Option OrderHandle := level.head

def empty : Bool := level.head.isNone

/-- Append an order behind everything resting. -/
def pushBack (pool : OrderPool) (handle : OrderHandle) : PriceLevel × OrderPool :=
  let pool := pool.modifyNode handle fun node => { node with next := none, prev := level.tail }
  let (head, pool) :=
    match level.tail with
    | none => (some handle, pool)
    | some tail =>
      (level.head, pool.modifyNode tail fun node => { node with next := some handle })
  ({ head := head
     tail := some handle
     totalQuantity := Word64.add level.totalQuantity (pool.order handle).remaining
     orderCount := level.orderCount + 1 }, pool)

/-- Unlink an order from anywhere in the queue; the node is not released. -/
def unlink (pool : OrderPool) (handle : OrderHandle) : PriceLevel × OrderPool :=
  let node := pool.node handle
  let (head, pool) :=
    match node.prev with
    | some before =>
      (level.head, pool.modifyNode before fun other => { other with next := node.next })
    | none => (node.next, pool)
  let (tail, pool) :=
    match node.next with
    | some after =>
      (level.tail, pool.modifyNode after fun other => { other with prev := node.prev })
    | none => (node.prev, pool)
  let pool := pool.modifyNode handle fun other => { other with prev := none, next := none }
  ({ head := head
     tail := tail
     totalQuantity := Word64.sub level.totalQuantity node.order.remaining
     orderCount := level.orderCount - 1 }, pool)

/-- Take a filled or withdrawn quantity off the level's total. -/
def reduce (quantity : Nat) : PriceLevel :=
  { level with totalQuantity := Word64.sub level.totalQuantity quantity }

/-- The handles the level's traversal loop visits. -/
def handles (pool : OrderPool) : List OrderHandle :=
  walk pool.next pool.size level.front

end

/-! ## What the two list operations do to the slab -/

/-- The part of the slab that the list operations leave alone. -/
structure SameOrders (pool pool' : OrderPool) : Prop where
  size_eq : pool'.size = pool.size
  order_eq : ∀ x, pool'.order x = pool.order x
  freeHead_eq : pool'.freeHead = pool.freeHead
  live_eq : pool'.live = pool.live

section Slab

variable (level : PriceLevel) (pool : OrderPool) {handle : OrderHandle}

/-- A link that is followed to write the node behind it. -/
theorem node_elim (link : Option OrderHandle) (hLt : ∀ y, link = some y → y < pool.size)
    (f : OrderNode → OrderNode) (x : OrderHandle) :
    (link.elim pool fun y => pool.modifyNode y f).node x =
      if link = some x then f (pool.node x) else pool.node x := by
  cases link with
  | none => rfl
  | some y =>
    rw [Option.elim_some, node_modifyNode pool f y x (hLt y rfl)]
    by_cases hx : x = y
    · simp [hx]
    · simp [hx, Ne.symm hx]

theorem size_elim (link : Option OrderHandle) (f : OrderNode → OrderNode) :
    (link.elim pool fun y => pool.modifyNode y f).size = pool.size := by
  cases link <;> simp

theorem level_pushBack : (level.pushBack pool handle).1 =
    { head := if level.tail = none then some handle else level.head
      tail := some handle
      totalQuantity := Word64.add level.totalQuantity
        ((level.pushBack pool handle).2.order handle).remaining
      orderCount := level.orderCount + 1 } := by
  cases hCase : level.tail <;> simp [pushBack, hCase]

/-- What an unlink leaves of the level. -/
theorem level_unlink : (level.unlink pool handle).1 =
    { head := if pool.prev handle = none then pool.next handle else level.head
      tail := if pool.next handle = none then pool.prev handle else level.tail
      totalQuantity := Word64.sub level.totalQuantity (pool.order handle).remaining
      orderCount := level.orderCount - 1 } := by
  unfold prev next
  cases hp : (pool.node handle).prev <;> cases hn : (pool.node handle).next <;>
    simp [unlink, hp, hn, order]

end Slab

/-! ## The queue a level holds -/

/-- Sum of the remainders of the orders behind some handles. -/
def restingSum (pool : OrderPool) (hs : List OrderHandle) : Nat :=
  (hs.map fun h => (pool.order h).remaining).sum

variable (pool : OrderPool) (h : OrderHandle)

@[simp] theorem restingSum_nil : restingSum pool [] = 0 := rfl

@[simp] theorem restingSum_cons (hs : List OrderHandle) :
    restingSum pool (h :: hs) = (pool.order h).remaining + restingSum pool hs := by
  simp [restingSum]

@[simp] theorem restingSum_append (l r : List OrderHandle) :
    restingSum pool (l ++ r) = restingSum pool l + restingSum pool r := by
  simp [restingSum]

theorem restingSum_congr {pool pool' : OrderPool} {hs : List OrderHandle}
    (hOrder : ∀ h ∈ hs, pool'.order h = pool.order h) :
    restingSum pool' hs = restingSum pool hs := by
  unfold restingSum
  congr 1
  exact List.map_congr_left fun h hMem => by rw [hOrder h hMem]

structure Holds (pool : OrderPool) (level : PriceLevel) (hs : List OrderHandle) : Prop where
  head : level.head = hs.head?
  tail : level.tail = hs.getLast?
  linked : Linked pool.prev pool.next hs
  bounded : ∀ h ∈ hs, h < pool.size
  nodup : hs.Nodup
  total : level.totalQuantity = Word64.wrap (restingSum pool hs)
  count : level.orderCount = hs.length

theorem holds_default : Holds pool {} [] where
  head := rfl
  tail := rfl
  linked := linked_nil
  bounded := by simp
  nodup := List.nodup_nil
  total := rfl
  count := rfl

namespace Holds

variable {pool} {pool' : OrderPool} {level : PriceLevel} {hs : List OrderHandle}

theorem empty_iff (hHolds : Holds pool level hs) : level.empty = true ↔ hs = [] := by
  unfold PriceLevel.empty
  rw [hHolds.head]
  cases hs <;> simp

/-- A level whose nodes did not change still holds the same queue. -/
theorem frame (hHolds : Holds pool level hs) (hSize : pool.size ≤ pool'.size)
    (hOrder : ∀ h ∈ hs, pool'.order h = pool.order h) (hPrev : ∀ h ∈ hs, pool'.prev h = pool.prev h)
    (hNext : ∀ h ∈ hs, pool'.next h = pool.next h) : Holds pool' level hs where
  head := hHolds.head
  tail := hHolds.tail
  linked := hHolds.linked.congr hPrev hNext
  bounded := fun h hMem => (hHolds.bounded h hMem).trans_le hSize
  nodup := hHolds.nodup
  total := by rw [hHolds.total, restingSum_congr hOrder]
  count := hHolds.count

/-- The traversal loop visits exactly the queue. -/
theorem handles_eq (hHolds : Holds pool level hs) : level.handles pool = hs := by
  unfold PriceLevel.handles front
  rw [hHolds.head]
  refine hHolds.linked.forward.walk_eq ?_
  -- Distinct handles below the slab's size cannot outnumber it.
  have hSubset : hs ⊆ List.range pool.size := fun h hMem =>
    List.mem_range.mpr (hHolds.bounded h hMem)
  simpa using (List.subperm_of_subset hHolds.nodup hSubset).length_le

variable {h} {handle x : OrderHandle} {l r : List OrderHandle}

section

variable (hHolds : Holds pool level hs) (hLt : handle < pool.size)
include hHolds hLt

/-- Every node after an order was appended. -/
theorem node_pushBack (x : OrderHandle) :
    (level.pushBack pool handle).2.node x =
      { order := pool.order x
        prev := if x = handle then level.tail else pool.prev x
        next := if level.tail = some x then some handle
          else if x = handle then none else pool.next x } := by
  let first := pool.modifyNode handle fun node => { node with next := none, prev := level.tail }
  have hTail : ∀ t, level.tail = some t → t < first.size := by
    intro t ht
    rw [hHolds.tail] at ht
    simpa [first] using hHolds.bounded t (List.mem_of_getLast? ht)
  have hPool : (level.pushBack pool handle).2 = level.tail.elim first fun tail =>
      first.modifyNode tail fun node => { node with next := some handle } := by
    cases hCase : level.tail <;> simp [PriceLevel.pushBack, first, hCase]
  rw [hPool, node_elim _ _ hTail, node_modifyNode pool _ handle x hLt]
  by_cases hx : x = handle
  · subst hx
    split <;> simp [*, order]
  · split <;> simp [*, order, prev, next]

theorem prev_pushBack (x : OrderHandle) : (level.pushBack pool handle).2.prev x =
    if x = handle then level.tail else pool.prev x :=
  congrArg OrderNode.prev (hHolds.node_pushBack hLt x)

theorem next_pushBack (x : OrderHandle) : (level.pushBack pool handle).2.next x =
    if level.tail = some x then some handle else if x = handle then none else pool.next x :=
  congrArg OrderNode.next (hHolds.node_pushBack hLt x)

theorem pushBack_sameOrders : SameOrders pool (level.pushBack pool handle).2 where
  size_eq := by cases hCase : level.tail <;> simp [PriceLevel.pushBack, hCase]
  order_eq := fun x => by rw [order, hHolds.node_pushBack hLt x]
  freeHead_eq := by cases hCase : level.tail <;> simp [PriceLevel.pushBack, hCase]
  live_eq := by cases hCase : level.tail <;> simp [PriceLevel.pushBack, hCase]

theorem pushBack (hFresh : handle ∉ hs) :
    Holds (level.pushBack pool handle).2 (level.pushBack pool handle).1 (hs ++ [handle]) := by
  have hSame := hHolds.pushBack_sameOrders hLt
  have hNodup : (hs ++ [handle]).Nodup := by
    rw [← List.concat_eq_append]
    exact hHolds.nodup.concat hFresh
  rw [level_pushBack]
  refine
    { head := ?_
      tail := by simp
      linked := ?_
      bounded := ?_
      nodup := hNodup
      total := ?_
      count := by simp [hHolds.count] }
  · rw [hHolds.head, hHolds.tail]
    cases hs <;> simp
  · refine hHolds.linked.pushBack hNodup (fun x => ?_) fun x => ?_
    · rw [hHolds.prev_pushBack hLt, hHolds.tail]
    · rw [hHolds.next_pushBack hLt, hHolds.tail]
  · intro x hMem
    rw [hSame.size_eq]
    rcases List.mem_append.mp hMem with hMem | hMem
    · exact hHolds.bounded x hMem
    · rw [List.mem_singleton.mp hMem]
      exact hLt
  · rw [restingSum_append, restingSum_congr fun h _ => hSame.order_eq h]
    dsimp only
    rw [hHolds.total, Word64.add_wrap]
    simp

/-- Appending touches only the appended node and the last one of the queue. -/
theorem pushBack_frame (hx : x ∉ hs) (hNe : x ≠ handle) :
    (level.pushBack pool handle).2.prev x = pool.prev x ∧
      (level.pushBack pool handle).2.next x = pool.next x := by
  rw [hHolds.prev_pushBack hLt, hHolds.next_pushBack hLt]
  have hNotTail : level.tail ≠ some x := by
    rw [hHolds.tail]
    intro hEq
    exact hx (List.mem_of_getLast? hEq)
  simp [hNe, hNotTail]

end

section

variable (hHolds : Holds pool level (l ++ h :: r))
include hHolds

/-- Every node after an unlink: the neighbours are joined, the node's own links
are cleared, and no order moves. -/
theorem node_unlink (x : OrderHandle) :
    (level.unlink pool h).2.node x =
      { order := pool.order x
        prev := if x = h then none else if r.head? = some x then l.getLast? else pool.prev x
        next := if x = h then none else if l.getLast? = some x then r.head? else pool.next x } := by
  obtain ⟨hPrev, hNext⟩ := hHolds.linked l h r rfl
  rw [← hPrev, ← hNext]
  -- The first write joins the predecessor to the successor, the second the successor back.
  let joined := (pool.prev h).elim pool fun before =>
    pool.modifyNode before fun other => { other with next := pool.next h }
  let rejoined := (pool.next h).elim joined fun after =>
    joined.modifyNode after fun other => { other with prev := pool.prev h }
  have hJoined : joined.size = pool.size := size_elim pool _ _
  have hRejoined : rejoined.size = pool.size := (size_elim joined _ _).trans hJoined
  have hPool : (level.unlink pool h).2 =
      rejoined.modifyNode h fun other => { other with prev := none, next := none } := by
    cases hp : (pool.node h).prev <;> cases hn : (pool.node h).next <;>
      simp [PriceLevel.unlink, rejoined, joined, prev, next, hp, hn]
  have hNode : ∀ y, rejoined.node y =
      { order := pool.order y
        prev := if pool.next h = some y then pool.prev h else pool.prev y
        next := if pool.prev h = some y then pool.next h else pool.next y } := by
    intro y
    rw [node_elim joined, node_elim pool]
    · split <;> split <;> rfl
    · intro p hp
      rw [hPrev] at hp
      exact hHolds.bounded p (by simp [List.mem_of_getLast? hp])
    · intro n hn
      rw [hNext] at hn
      exact (hHolds.bounded n (by simp [List.mem_of_head? hn])).trans_eq hJoined.symm
  rw [hPool, node_modifyNode rejoined _ h x
    ((hHolds.bounded h (by simp)).trans_eq hRejoined.symm), hNode, hNode]
  split
  · next hx => rw [hx]
  · rfl

theorem unlink_sameOrders : SameOrders pool (level.unlink pool h).2 := by
  refine ⟨?_, fun x => by rw [order, hHolds.node_unlink x], ?_, ?_⟩ <;>
  · cases hp : (pool.node h).prev <;> cases hn : (pool.node h).next <;>
      simp [PriceLevel.unlink, hp, hn]

/-- The neighbours of an unlinked node are joined to each other. -/
theorem linked_unlink :
    Linked (level.unlink pool h).2.prev (level.unlink pool h).2.next (l ++ r) := by
  have hNe : ∀ x ∈ l ++ r, x ≠ h := by
    rintro x hx rfl
    exact (List.nodup_cons.mp (List.nodup_middle.mp hHolds.nodup)).1 hx
  refine hHolds.linked.unlink (hHolds.nodup.sublist (by simp)) (fun x hx => ?_) fun x hx => ?_
  · rw [prev, hHolds.node_unlink x]
    exact if_neg (hNe x hx)
  · rw [next, hHolds.node_unlink x]
    exact if_neg (hNe x hx)

theorem unlink : Holds (level.unlink pool h).2 (level.unlink pool h).1 (l ++ r) := by
  obtain ⟨hPrev, hNext⟩ := hHolds.linked l h r rfl
  have hSame := hHolds.unlink_sameOrders
  rw [level_unlink, hPrev, hNext]
  refine
    { head := ?_
      tail := ?_
      linked := hHolds.linked_unlink
      bounded := ?_
      nodup := hHolds.nodup.sublist (by simp)
      total := ?_
      count := by simp [hHolds.count] }
  · have hHead := hHolds.head
    cases l <;> simp_all
  · have hTail := hHolds.tail
    cases r <;> simp_all [List.getLast?_append, List.getLast?_cons]
  · intro x hx
    rw [hSame.size_eq]
    refine hHolds.bounded x ?_
    rcases List.mem_append.mp hx with hx | hx
    · simp [hx]
    · simp [hx]
  · dsimp only
    rw [hHolds.total, restingSum_congr fun x _ => hSame.order_eq x]
    have hSum : restingSum pool (l ++ h :: r) =
        restingSum pool (l ++ r) + (pool.order h).remaining := by
      simp
      omega
    rw [hSum, Word64.sub_wrap_add]

/-- Unlinking touches only nodes of its own queue. -/
theorem unlink_frame (hx : x ∉ l ++ h :: r) :
    (level.unlink pool h).2.prev x = pool.prev x ∧
      (level.unlink pool h).2.next x = pool.next x := by
  have hNode := hHolds.node_unlink x
  have hSelf : x ≠ h := by
    rintro rfl
    exact hx (by simp)
  have hNotNext : r.head? ≠ some x := fun hEq => hx (by simp [List.mem_of_head? hEq])
  have hNotPrev : l.getLast? ≠ some x := fun hEq => hx (by simp [List.mem_of_getLast? hEq])
  simp [prev, next, hNode, hSelf, hNotNext, hNotPrev]

end

/-- Shrinking one resting order and the level's total together. -/
theorem shrink {o : Order} {q : Nat} (hHolds : Holds pool level (l ++ h :: r))
    (hRemaining : (pool.order h).remaining = o.remaining + q) :
    Holds (pool.setOrder h o) (level.reduce q) (l ++ h :: r) := by
  have hLt : h < pool.size := hHolds.bounded h (by simp)
  obtain ⟨-, hRight, hDisjoint⟩ := List.nodup_append.mp hHolds.nodup
  have hNotRight : h ∉ r := (List.nodup_cons.mp hRight).1
  have hSumEq : ∀ hs : List OrderHandle, h ∉ hs →
      restingSum (pool.setOrder h o) hs = restingSum pool hs := fun hs hNot =>
    restingSum_congr fun x hx => by
      rw [order_setOrder pool hLt, if_neg (by rintro rfl; exact hNot hx)]
  have hNotLeft : h ∉ l := fun hx => hDisjoint h hx h (by simp) rfl
  refine
    { head := hHolds.head
      tail := hHolds.tail
      linked := hHolds.linked.congr (fun x _ => prev_setOrder pool hLt o x)
        fun x _ => next_setOrder pool hLt o x
      bounded := fun x hx => by simpa using hHolds.bounded x hx
      nodup := hHolds.nodup
      total := ?_
      count := hHolds.count }
  have hTotal := hHolds.total
  simp only [reduce, hTotal, restingSum_append, restingSum_cons, hSumEq l hNotLeft,
    hSumEq r hNotRight, order_setOrder pool hLt, if_true, hRemaining]
  rw [show restingSum pool l + (o.remaining + q + restingSum pool r) =
      restingSum pool l + (o.remaining + restingSum pool r) + q by omega, Word64.sub_wrap_add]

end Holds

end PriceLevel
end ExchangeCore
