import ExchangeCore.Core.BookCommands
import ExchangeCore.PriceTime.Ledger
import ExchangeCore.PriceTime.Timing

/-!
# Runs of the order book

A run applies a list of commands to a book that starts empty.  Each command
keeps the book sound and the book it stands for valid, so every reachable book
satisfies the representation invariant `Intact` and is never crossed.
-/

namespace ExchangeCore

open SummaryBitmap LinkedList PriceLevel PriceTime List

/-- A command of the book, with the stamps the engine gives it. -/
inductive BookCommand
  | submit (order : Order)
  | cancel (id : OrderId)
  | replace (id : OrderId) (newPrice : Int) (newQuantity newSequence : Nat) (now : Int)
  deriving DecidableEq

/-- The stamp of a command that can put an order in a queue. -/
def BookCommand.sequence : BookCommand → Option Nat
  | .submit order => some order.sequence
  | .cancel _ => none
  | .replace _ _ _ newSequence _ => some newSequence

/-- Every submission and amendment is stamped later than all before it. -/
def BookCommand.Increasing (commands : List BookCommand) : Prop :=
  (commands.filterMap BookCommand.sequence).Pairwise (· < ·)

instance (commands : List BookCommand) : Decidable (BookCommand.Increasing commands) :=
  inferInstanceAs (Decidable (List.Pairwise _ _))

/-- The commands after the first are increasing and stamped after it. -/
theorem BookCommand.Increasing.tail {command : BookCommand} {commands : List BookCommand}
    {bound : Nat} (hIncreasing : BookCommand.Increasing (command :: commands))
    (hLate : ∀ stamp ∈ (command :: commands).filterMap BookCommand.sequence, bound ≤ stamp) :
    BookCommand.Increasing commands ∧
      ∀ stamp ∈ commands.filterMap BookCommand.sequence,
        (command.sequence.map (· + 1)).getD bound ≤ stamp := by
  unfold BookCommand.Increasing at hIncreasing
  cases hSequence : command.sequence with
  | none =>
    rw [filterMap_cons_none hSequence] at hIncreasing hLate
    exact ⟨hIncreasing, hLate⟩
  | some stamp =>
    rw [filterMap_cons_some hSequence, pairwise_cons] at hIncreasing
    exact ⟨hIncreasing.2, hIncreasing.1⟩

/-- What a command answers with. -/
inductive BookReply
  | submitted (result : SubmitResult)
  | cancelled (result : CancelResult)
  | replaced (result : ReplaceResult)
  deriving DecidableEq

/-- The abstract book obeying a command, with a verdict on fill-or-kill
orders. -/
def PriceTime.Book.apply (book : Book) (verdict : Order → Bool) (fills : List Fill)
    (withdrawals : List Withdrawal) : BookCommand → Outcome Book BookReply
  | .submit order =>
    let outcome := book.submit (verdict { order with remaining := order.quantity }) order fills
      withdrawals
    ⟨outcome.book, .submitted outcome.result, outcome.fills, outcome.withdrawals⟩
  | .cancel id => ⟨(book.cancel id).1, .cancelled (book.cancel id).2, fills, withdrawals⟩
  | .replace id newPrice newQuantity newSequence now =>
    let outcome := book.replace id newPrice newQuantity newSequence now fills withdrawals
    ⟨outcome.book, .replaced outcome.result, outcome.fills, outcome.withdrawals⟩

variable (book : OrderBook)

namespace OrderBook

def apply (fills : List Fill) (withdrawals : List Withdrawal) :
    BookCommand → Outcome OrderBook BookReply
  | .submit order =>
    let outcome := book.submit order fills withdrawals
    ⟨outcome.book, .submitted outcome.result, outcome.fills, outcome.withdrawals⟩
  | .cancel id => ⟨(book.cancel id).1, .cancelled (book.cancel id).2, fills, withdrawals⟩
  | .replace id newPrice newQuantity newSequence now =>
    let outcome := book.replace id newPrice newQuantity newSequence now fills withdrawals
    ⟨outcome.book, .replaced outcome.result, outcome.fills, outcome.withdrawals⟩

def run (commands : List BookCommand) : OrderBook :=
  commands.foldl (fun book command => (book.apply [] [] command).book) book

/-- What rests on one side in total. -/
def restingQuantity (side : Side) : Nat :=
  ((book.sideOrders side).map Order.remaining).sum

/-- Neither side's quantity exceeds a word. -/
def Fits : Prop := ∀ side, book.restingQuantity side < Word64.modulus

instance : Decidable book.Fits :=
  decidable_of_iff
    (book.restingQuantity .buy < Word64.modulus ∧ book.restingQuantity .sell < Word64.modulus)
    ⟨fun h side => by
      cases side
      · exact h.1
      · exact h.2, fun h => ⟨h .buy, h .sell⟩⟩

/-! ## What every command keeps -/

/-- The invariant of a run: the structures represent a book, and that book is
valid. -/
structure Kept (book : OrderBook) : Prop where
  sound : book.Sound
  valid : book.abs.Valid

variable {book}

/-- A resting order is found in the represented book. -/
theorem Kept.find_abs (hKept : book.Kept) {id : OrderId} {order : Order}
    (hFind : book.find id = some order) : book.abs.find id = some order := by
  rw [← hKept.sound.find_eq, hFind]

theorem kept_create {instrument : Instrument} (hTick : 0 < instrument.tickSize)
    (initialCapacity : Nat) : (create instrument initialCapacity).Kept :=
  ⟨sound_create hTick initialCapacity, by
    rw [abs_create hTick]
    exact Book.valid_empty instrument⟩

section Step

variable (hKept : book.Kept)
include hKept

/-- A command acts on the structures as on the book they stand for. -/
theorem Kept.refines (fills : List Fill) (withdrawals : List Withdrawal) (command : BookCommand) :
    Refines (book.apply fills withdrawals command)
      (book.abs.apply book.verdict fills withdrawals command) := by
  cases command with
  | submit order =>
    have hSubmit := hKept.sound.submit order fills withdrawals
    exact ⟨hSubmit.sound, hSubmit.book, congrArg BookReply.submitted hSubmit.result,
      hSubmit.fills, hSubmit.withdrawals⟩
  | cancel id =>
    obtain ⟨hSound, hAbs, hResult⟩ := hKept.sound.cancel id
    exact ⟨hSound, hAbs, congrArg BookReply.cancelled hResult, rfl, rfl⟩
  | replace id newPrice newQuantity newSequence now =>
    have hReplace := hKept.sound.replace hKept.valid id newPrice newQuantity newSequence now
      fills withdrawals
    exact ⟨hReplace.sound, hReplace.book, congrArg BookReply.replaced hReplace.result,
      hReplace.fills, hReplace.withdrawals⟩

/-- Inserting keeps a book valid, whatever its verdict on a fill-or-kill order:
one it lets through does fill, so it never rests. -/
theorem Kept.valid_insert {order : Order}
    (hLe : order.remaining ≤ order.quantity) (fills : List Fill) (withdrawals : List Withdrawal) :
    (book.abs.insert (book.verdict order) order fills withdrawals).book.Valid := by
  apply hKept.valid.insert hLe
  intro _ hVerdict
  exact Book.remaining_of_canFill _ _ _ _ (hKept.sound.canFill_of_verdict hVerdict)

section

variable (fills : List Fill) (withdrawals : List Withdrawal) (command : BookCommand)

theorem Kept.apply : (book.apply fills withdrawals command).book.Kept := by
  have hRefines := hKept.refines fills withdrawals command
  refine ⟨hRefines.sound, ?_⟩
  rw [hRefines.book]
  cases command with
  | submit order => exact hKept.valid_insert (le_refl _) fills withdrawals
  | cancel id => exact hKept.valid.cancel id
  | replace id newPrice newQuantity newSequence now =>
    exact hKept.valid.replace id newPrice newQuantity newSequence now

theorem Kept.instrument_apply :
    (book.apply fills withdrawals command).book.instrument = book.instrument := by
  show (book.apply fills withdrawals command).book.abs.instrument = _
  rw [(hKept.refines fills withdrawals command).book]
  cases command <;> simp [Book.apply, Book.submit, abs]

end

/-- A command stamped late enough keeps time priority. -/
theorem Kept.timed {bound : Nat} (hTimed : book.abs.Timed bound)
    (fills : List Fill) (withdrawals : List Withdrawal) (command : BookCommand)
    (hLate : ∀ stamp ∈ command.sequence, bound ≤ stamp) :
    (book.apply fills withdrawals command).book.abs.Timed
      ((command.sequence.map (· + 1)).getD bound) := by
  rw [(hKept.refines fills withdrawals command).book]
  cases command with
  | submit order =>
    exact hTimed.insert hKept.valid
      (show bound ≤ ({ order with remaining := order.quantity } : Order).sequence from
        hLate order.sequence rfl) _ fills withdrawals
  | cancel id => exact hTimed.cancel id
  | replace id newPrice newQuantity newSequence now =>
    exact hTimed.replace hKept.valid id newPrice newQuantity (hLate newSequence rfl) now fills
      withdrawals

end Step

/-! ## Runs -/

section Run

theorem run_cons (book : OrderBook) (command : BookCommand) (commands : List BookCommand) :
    book.run (command :: commands) = (book.apply [] [] command).book.run commands := rfl

theorem Kept.run (hKept : book.Kept) (commands : List BookCommand) : (book.run commands).Kept := by
  induction commands generalizing book with
  | nil => exact hKept
  | cons command commands ih => exact ih (hKept.apply [] [] command)

theorem Kept.instrument_run (hKept : book.Kept) (commands : List BookCommand) :
    (book.run commands).instrument = book.instrument := by
  induction commands generalizing book with
  | nil => rfl
  | cons command commands ih =>
    rw [run_cons, ih (hKept.apply [] [] command), hKept.instrument_apply]

/-- Increasing stamps keep time priority along a whole run. -/
theorem Kept.timed_run (hKept : book.Kept) {bound : Nat} (hTimed : book.abs.Timed bound)
    {commands : List BookCommand} (hIncreasing : BookCommand.Increasing commands)
    (hLate : ∀ stamp ∈ commands.filterMap BookCommand.sequence, bound ≤ stamp) :
    ∃ bound', (book.run commands).abs.Timed bound' := by
  induction commands generalizing book bound with
  | nil => exact ⟨bound, hTimed⟩
  | cons command commands ih =>
    have hStep := hKept.timed hTimed [] [] command fun stamp hStamp =>
      hLate stamp (by
        rw [mem_filterMap]
        exact ⟨command, by simp, hStamp⟩)
    obtain ⟨hIncreasing', hLate'⟩ := BookCommand.Increasing.tail hIncreasing hLate
    exact ih (hKept.apply [] [] command) hStep hIncreasing' hLate'

end Run

/-! ## The representation invariant -/

/-- The structures of a book, spelled out: `q side i` is the queue of handles at
tick `i` of a side, from head to tail, and `free` the free list. -/
structure Intact (book : OrderBook) (q : Queues) (free : List OrderHandle) : Prop where
  /-- The ends of a level's list, and nothing beyond them. -/
  ends : ∀ side, ∀ i < book.instrument.tickCount,
    ((book.ladder side).level i).head = (q side i).head? ∧
      ((book.ladder side).level i).tail = (q side i).getLast?
  head_prev : ∀ side i h, (q side i).head? = some h → book.pool.prev h = none
  tail_next : ∀ side i h, (q side i).getLast? = some h → book.pool.next h = none
  /-- Between neighbours, `next` and `prev` are inverse. -/
  links : ∀ side i l a b r, q side i = l ++ a :: b :: r →
    book.pool.next a = some b ∧ book.pool.prev b = some a
  arrival : ∀ side i, (q side i).Pairwise fun ahead behind =>
    (book.pool.order ahead).sequence < (book.pool.order behind).sequence
  placed : ∀ side i, ∀ h ∈ q side i, (book.pool.order h).side = side ∧
    (book.pool.order h).price = (book.ladder side).priceAt i
  totals : ∀ side, ∀ i < book.instrument.tickCount, ((book.ladder side).level i).totalQuantity =
        ((q side i).map fun h => (book.pool.order h).remaining).sum ∧
      ((book.ladder side).level i).orderCount = (q side i).length
  occupied : ∀ side i, (book.ladder side).test i = true ↔ q side i ≠ []
  unoccupied : ∀ side i, (book.ladder side).test i = false → (book.ladder side).level i = {}
  free_head : book.pool.freeHead = free.head?
  free_links : ∀ l h r, free = l ++ h :: r → book.pool.next h = r.head?
  free_nodup : free.Nodup
  queue_nodup : ∀ side i, (q side i).Nodup
  free_disjoint : ∀ h ∈ free, ∀ side i, h ∉ q side i
  queues_disjoint : ∀ h side i side' i', h ∈ q side i → h ∈ q side' i' → side' = side ∧ i' = i
  cover : ∀ h, h < book.pool.size ↔ h ∈ free ∨ ∃ side i, h ∈ q side i
  index : ∀ id h, book.index.find id = some h ↔
    (∃ side i, h ∈ q side i) ∧ (book.pool.order h).id = id
  counts : book.pool.live = book.index.size ∧ book.index.size = book.restingOrders.length
  resting : ∀ order, order ∈ book.restingOrders ↔
    ∃ h side i, h ∈ q side i ∧ book.pool.order h = order
  restable : ∀ order ∈ book.restingOrders, order.type = .limit ∧
    (order.tif = .day ∨ order.tif = .goodTilCancelled) ∧ 0 < order.remaining ∧
    order.remaining ≤ order.quantity ∧ book.instrument.isValidPrice order.price = true

section Intact

variable {q : Queues} {free : List OrderHandle} {bound i : Nat}

/-- Orders of one tick stand in the order of their stamps. -/
theorem Rep.arrival (hRep : Rep book q free) (hTimed : book.abs.Timed bound)
    (side : Side) (i : Nat) : (q side i).Pairwise fun ahead behind =>
      (book.pool.order ahead).sequence < (book.pool.order behind).sequence := by
  by_cases hLt : i < book.instrument.tickCount
  · have hOrdered := hTimed.ordered side
    rw [hRep.abs_eq, queue_view, viewQueue] at hOrdered
    obtain ⟨ahead, behind, -, hOld, -⟩ := q.handles_split side hLt
    have hSub : (q side i).Sublist (q.handles book.instrument.tickCount side) := by
      rw [hOld, append_assoc]
      exact (sublist_append_left _ _).trans (sublist_append_right _ _)
    have hTick := hOrdered.sublist (hSub.map book.pool.order)
    rw [pairwise_map] at hTick
    refine hTick.imp_of_mem fun {a b} ha hb hStamps => hStamps ?_
    rw [(hRep.placed side i a ha).2, (hRep.placed side i b hb).2]
  · rw [hRep.outside side i (by omega)]
    exact List.Pairwise.nil

/-- A level's total is exact when its whole side fits a word. -/
theorem Rep.total_eq (hRep : Rep book q free) (hFits : book.Fits) (side : Side)
    (hLt : i < book.instrument.tickCount) :
    ((book.ladder side).level i).totalQuantity =
      ((q side i).map fun h => (book.pool.order h).remaining).sum := by
  obtain ⟨ahead, behind, -, hOld, -⟩ := q.handles_split side hLt
  have hSide := hFits side
  rw [restingQuantity, hRep.sideOrders_eq, viewQueue, hOld] at hSide
  simp only [map_append, sum_append, map_map] at hSide
  rw [(hRep.holds side i hLt).total]
  apply Word64.wrap_of_lt
  have hSum : restingSum book.pool (q side i) =
      ((q side i).map (Order.remaining ∘ book.pool.order)).sum := rfl
  omega

theorem Rep.level_of_nil (hRep : Rep book q free) {side : Side}
    (hNil : q side i = []) : (book.ladder side).level i = {} := by
  by_cases hLt : i < book.instrument.tickCount
  · have hHolds := hRep.holds side i hLt
    rw [hNil] at hHolds
    have hTotal := hHolds.total
    have hCount := hHolds.count
    have hHead := hHolds.head
    have hTail := hHolds.tail
    ext1
    · exact hHead
    · exact hTail
    · exact hTotal
    · exact hCount
  · have hOut : (book.ladder side).levels.length ≤ i := by
      rw [(hRep.laid side).length]
      omega
    simp [PriceLadder.level, List.getElem?_eq_none hOut]

/-- A kept, timed book whose quantities fit is intact. -/
theorem Kept.intact (hKept : book.Kept) (hTimed : book.abs.Timed bound)
    (hFits : book.Fits) : ∃ q free, Intact book q free := by
  obtain ⟨q, free, hRep, hTight⟩ := hKept.sound
  have hOccupied : ∀ side i, (book.ladder side).test i = true ↔ q side i ≠ [] := fun side i =>
    ⟨fun hTest => (hTight side i hTest).resolve_right (by simp), hRep.marked side i⟩
  have hLinked : ∀ side i, Linked book.pool.prev book.pool.next (q side i) := by
    intro side i
    by_cases hLt : i < book.instrument.tickCount
    · exact (hRep.holds side i hLt).linked
    · rw [hRep.outside side i (by omega)]
      exact linked_nil
  have hResting : book.restingOrders = (view book q).orders := by
    rw [restingOrders, hRep.sideOrders_eq, hRep.sideOrders_eq]
    rfl
  refine ⟨q, free, ?_⟩
  refine
    { ends := fun side i hLt =>
        ⟨(hRep.holds side i hLt).head, (hRep.holds side i hLt).tail⟩
      head_prev := ?_
      tail_next := ?_
      links := ?_
      arrival := hRep.arrival hTimed
      placed := ?_
      totals := fun side i hLt =>
        ⟨hRep.total_eq hFits side hLt, (hRep.holds side i hLt).count⟩
      occupied := hOccupied
      unoccupied := fun side i hTest => hRep.level_of_nil ?_
      free_head := hRep.freeList.head
      free_links := hRep.freeList.chain
      free_nodup := hRep.freeList.nodup
      queue_nodup := ?_
      free_disjoint := hRep.disjoint
      queues_disjoint := fun h side i side' i' hMem hMem' => hRep.place_unique hMem hMem'
      cover := fun h => ⟨hRep.cover h, ?_⟩
      index := hRep.index_find
      counts := ⟨hRep.index_size.symm, ?_⟩
      resting := fun order => by rw [hResting]; exact hRep.mem_orders_iff
      restable := ?_ }
  · intro side i h hHead
    obtain ⟨r, hSplit⟩ := List.head?_eq_some_iff.mp hHead
    exact (hLinked side i [] h r hSplit).1
  · intro side i h hLast
    obtain ⟨l, hSplit⟩ := List.getLast?_eq_some_iff.mp hLast
    exact (hLinked side i l h [] hSplit).2
  · intro side i l a b r hSplit
    have hNext := (hLinked side i l a (b :: r) hSplit).2
    have hPrev := (hLinked side i (l ++ [a]) b r (by rw [hSplit]; simp)).1
    exact ⟨by simpa using hNext, by simpa using hPrev⟩
  · intro side i h hMem
    rw [(hRep.laid side).priceAt]
    exact hRep.placed side i h hMem
  · by_contra hNe
    rw [(hOccupied side i).mpr hNe] at hTest
    contradiction
  · intro side i
    by_cases hLt : i < book.instrument.tickCount
    · exact (hRep.holds side i hLt).nodup
    · rw [hRep.outside side i (by omega)]
      exact nodup_nil
  · intro hPlace
    rcases hPlace with hFree | ⟨side, i, hMem⟩
    · exact hRep.freeList.bounded h hFree
    · exact hRep.lt_size hMem
  · rw [hRep.index_size, hRep.live, restingOrders, hRep.sideOrders_eq, hRep.sideOrders_eq]
    simp [viewQueue]
  · intro order hMem
    rw [hResting, ← hRep.abs_eq] at hMem
    obtain ⟨side, hSide⟩ := Book.mem_orders.mp hMem
    have hRests := hKept.valid.rests side order hSide
    exact ⟨hRests.limit, hRests.tif, hRests.live.1, hRests.live.2, hRests.price⟩

end Intact

/-- Every book reached by increasing commands is intact. -/
theorem reachable_intact (instrument : Instrument) (hTick : 0 < instrument.tickSize)
    (initialCapacity : Nat) (commands : List BookCommand)
    (hIncreasing : BookCommand.Increasing commands)
    (hFits : ((create instrument initialCapacity).run commands).Fits) :
    ((create instrument initialCapacity).run commands).instrument = instrument ∧
      ∃ q free, Intact ((create instrument initialCapacity).run commands) q free := by
  have hStart := kept_create hTick initialCapacity
  have hTimed : (create instrument initialCapacity).abs.Timed 0 := by
    rw [abs_create hTick]
    exact Book.timed_empty instrument 0
  obtain ⟨bound, hEnd⟩ := hStart.timed_run hTimed hIncreasing fun stamp _ => Nat.zero_le stamp
  exact ⟨hStart.instrument_run commands, (hStart.run commands).intact hEnd hFits⟩

/-- A band of three ticks. -/
def sampleInstrument : Instrument :=
  { id := ⟨1⟩, minPrice := 1, maxPrice := 3, expectedRestingOrders := 1 }

def sampleOrder (id account : Nat) (side : Side) (price : Int) (quantity sequence : Nat) : Order :=
  { id := ⟨id⟩
    account := ⟨account⟩
    instrument := ⟨1⟩
    side := side
    price := price
    quantity := quantity
    remaining := quantity
    sequence := sequence }

/-- Two sellers rest, a buyer takes the first and part of the second, the second
is amended where it stands, and a lower bid rests. -/
def sampleCommands : List BookCommand :=
  [.submit (sampleOrder 1 1 .sell 2 5 1), .submit (sampleOrder 2 2 .sell 2 4 2),
    .submit (sampleOrder 3 3 .buy 2 6 3), .replace ⟨2⟩ 2 3 4 0,
    .submit (sampleOrder 4 3 .buy 1 7 5)]

theorem reachable_intact_sample :
    ((create sampleInstrument 1).run sampleCommands).instrument = sampleInstrument ∧
      ∃ q free, Intact ((create sampleInstrument 1).run sampleCommands) q free := by
  exact reachable_intact sampleInstrument (by decide) 1 sampleCommands (by decide)
    (by decide +kernel)

/-! ## The matching loops end -/

/-- On every reachable book the loops of `match` end, whatever order comes in. -/
theorem reachable_match_ends (instrument : Instrument) (hTick : 0 < instrument.tickSize)
    (initialCapacity : Nat) (commands : List BookCommand) (order : Order) (fills : List Fill)
    (withdrawals : List Withdrawal) :
    MatchRun order.side.opposite order.crosses
      { book := (create instrument initialCapacity).run commands
        incoming := order
        fills := fills
        withdrawals := withdrawals }
      (((create instrument initialCapacity).run commands).match order.side.opposite order fills
        withdrawals) := by
  obtain ⟨q, free, hRep, hTight⟩ := ((kept_create hTick initialCapacity).run commands).sound
  obtain ⟨-, -, -, -, hRun⟩ := match_sim hRep hTight order fills withdrawals
  exact hRun

theorem reachable_match_ends_sample :
    MatchRun .buy (sampleOrder 5 1 .sell 1 9 6).crosses
      { book := (create sampleInstrument 1).run sampleCommands
        incoming := sampleOrder 5 1 .sell 1 9 6
        fills := []
        withdrawals := [] }
      (((create sampleInstrument 1).run sampleCommands).match .buy (sampleOrder 5 1 .sell 1 9 6)
        [] []) :=
  reachable_match_ends sampleInstrument (by decide) 1 sampleCommands
    (sampleOrder 5 1 .sell 1 9 6) [] []

/-! ## The book never crosses -/

/-- In a kept book the best prices are those of the queues' heads. -/
theorem Kept.best (hKept : book.Kept) :
    book.bestBid = (book.sideOrders .buy).head?.map Order.price ∧
      book.bestAsk = (book.sideOrders .sell).head?.map Order.price := by
  obtain ⟨q, free, hRep, hTight⟩ := hKept.sound
  rw [hRep.sideOrders_eq, hRep.sideOrders_eq]
  exact ⟨(empty_best book.bids).trans (hRep.best_price hTight .buy),
    (empty_best book.asks).trans (hRep.best_price hTight .sell)⟩

theorem Kept.uncrossed (hKept : book.Kept) {bid ask : Order}
    (hBid : bid ∈ book.sideOrders .buy) (hAsk : ask ∈ book.sideOrders .sell) :
    bid.price < ask.price :=
  hKept.valid.uncrossed bid hBid ask hAsk

/-- No reachable book has a bid at or above an ask, and so the best bid is below
the best ask. -/
theorem reachable_uncrossed (instrument : Instrument) (hTick : 0 < instrument.tickSize)
    (initialCapacity : Nat) (commands : List BookCommand) :
    (∀ bid ∈ ((create instrument initialCapacity).run commands).sideOrders .buy,
      ∀ ask ∈ ((create instrument initialCapacity).run commands).sideOrders .sell,
        bid.price < ask.price) ∧
    ∀ bid ∈ ((create instrument initialCapacity).run commands).bestBid,
      ∀ ask ∈ ((create instrument initialCapacity).run commands).bestAsk, bid < ask := by
  have hKept := (kept_create hTick initialCapacity).run commands
  refine ⟨fun bid hBid ask hAsk => hKept.uncrossed hBid hAsk, ?_⟩
  intro bid hBid ask hAsk
  obtain ⟨hBest, hBest'⟩ := hKept.best
  rw [hBest, Option.mem_def, Option.map_eq_some_iff] at hBid
  rw [hBest', Option.mem_def, Option.map_eq_some_iff] at hAsk
  obtain ⟨bidOrder, hBidHead, rfl⟩ := hBid
  obtain ⟨askOrder, hAskHead, rfl⟩ := hAsk
  exact hKept.uncrossed (List.mem_of_mem_head? hBidHead) (List.mem_of_mem_head? hAskHead)

theorem reachable_uncrossed_sample :
    ((create sampleInstrument 1).run sampleCommands).bestBid = some 1 ∧
      ((create sampleInstrument 1).run sampleCommands).bestAsk = some 2 ∧ (1 : Int) < 2 := by
  have hBid : ((create sampleInstrument 1).run sampleCommands).bestBid = some 1 := by
    decide +kernel
  have hAsk : ((create sampleInstrument 1).run sampleCommands).bestAsk = some 2 := by
    decide +kernel
  exact ⟨hBid, hAsk, (reachable_uncrossed sampleInstrument (by decide) 1 sampleCommands).2 1
    hBid 2 hAsk⟩

/-! ## Refused commands -/

/-- A refused insertion leaves the structures as they were. -/
theorem insert_refused {order : Order} {fills : List Fill} {withdrawals : List Withdrawal}
    (hRefused : (book.insert order fills withdrawals).result.reject ≠ .none) :
    (book.insert order fills withdrawals).book = book ∧
      (book.insert order fills withdrawals).fills = fills ∧
      (book.insert order fills withdrawals).withdrawals = withdrawals := by
  unfold insert at *
  dsimp only at *
  split
  · exact ⟨rfl, rfl, rfl⟩
  next hValid =>
  rw [if_neg hValid] at hRefused
  split
  · exact ⟨rfl, rfl, rfl⟩
  next hPost =>
  rw [if_neg hPost] at hRefused
  split
  · exact ⟨rfl, rfl, rfl⟩
  next hKill =>
  -- From here on every way out accepts the order.
  rw [if_neg hKill] at hRefused
  split at hRefused
  · exact absurd rfl hRefused
  split at hRefused
  · exact absurd rfl hRefused
  · exact absurd rfl hRefused

/-- A refused amendment of a resting order: either its terms are invalid and
nothing happened, or it is post-only, would cross, and has left the book. -/
theorem Kept.replace_refused (hKept : book.Kept) {id : OrderId}
    {newPrice : Int} {newQuantity newSequence : Nat} {now : Int} {previous : Order}
    (hFind : book.find id = some previous) {outcome : Outcome OrderBook ReplaceResult}
    (hOutcome : book.replace id newPrice newQuantity newSequence now [] [] = outcome)
    (hRefused : outcome.result.reject ≠ .none) :
    outcome.fills = [] ∧ outcome.withdrawals = [] ∧
      ((outcome.book = book ∧ (outcome.result.reject = .invalidPrice ∨
          outcome.result.reject = .invalidQuantity)) ∨
        (outcome.book.abs = book.abs.remove previous ∧
          outcome.result.reject = .postOnlyWouldCross ∧ previous.postOnly = true ∧
          (book.abs.remove previous).wouldCross
            (Book.amended previous newPrice newQuantity newSequence now) = true)) := by
  have hRefines := hKept.sound.replace hKept.valid id newPrice newQuantity newSequence now [] []
  rw [hOutcome] at hRefines
  have hFindAbs := hKept.find_abs hFind
  have hCases := Book.replace_cases book.abs id newPrice newQuantity newSequence now [] []
  have hSame := hRefines.result
  have hFills := hRefines.fills
  have hWithdrawals := hRefines.withdrawals
  have hAbs := hRefines.book
  have hHandle : ∃ handle, book.index.find id = some handle ∧
      book.pool.order handle = previous := by
    simpa [OrderBook.find] using hFind
  obtain ⟨handle, hIndex, hPrevious⟩ := hHandle
  generalize book.abs.replace id newPrice newQuantity newSequence now [] [] = abstract at *
  cases hCases with
  | unknown hNone =>
    rw [hNone] at hFindAbs
    contradiction
  | refused other reason hOther hReason =>
    refine ⟨hFills, hWithdrawals, Or.inl ?_⟩
    rw [hSame]
    rcases hReason with ⟨rfl, hPrice⟩ | ⟨rfl, hPrice, hQuantity⟩
    · refine ⟨?_, Or.inl rfl⟩
      have hPrice' : book.instrument.isValidPrice newPrice = false := hPrice
      rw [← hOutcome, replace, hIndex]
      simp [hPrice']
    refine ⟨?_, Or.inr rfl⟩
    have hPrice' : book.instrument.isValidPrice newPrice = true := hPrice
    have hQuantity' : book.instrument.isValidQuantity newQuantity = false := hQuantity
    rw [← hOutcome, replace, hIndex]
    simp [hPrice', hQuantity']
  | closed => exact absurd (congrArg ReplaceResult.reject hSame) hRefused
  | inPlace => exact absurd (congrArg ReplaceResult.reject hSame) hRefused
  | requeued other hOther hPrice hQuantity _ _ inserted hInserted =>
    cases hFindAbs.symm.trans hOther
    rw [hSame] at hRefused
    obtain ⟨hEq, hPost, hCross⟩ := hKept.valid.insert_amended hFindAbs hPrice hQuantity
      hInserted.symm hRefused
    subst hEq
    exact ⟨hFills, hWithdrawals, Or.inr ⟨hAbs, by rw [hSame], hPost, hCross⟩⟩

end OrderBook
end ExchangeCore
