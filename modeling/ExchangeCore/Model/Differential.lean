import Mathlib.Data.List.Pairwise
import ExchangeCore.Core.BookQueries
import ExchangeCore.Model.ReferenceRefinement

/-!
# The two books agree

The differential test of the source runs one stream of commands against the
order book and the reference book and compares everything observable after each
command.  Both simulate the abstract book, so the observations are equal on
every stream whose stamps increase, as long as the resting quantity of a side
fits a word (which the fill-or-kill count relies on).
-/

namespace ExchangeCore

open PriceTime List

namespace ReferenceBook

/-! ## Queries of the reference book -/

section Queries

variable {book : ReferenceBook} {a : Book} {bound : Nat}

theorem Mirrors.filter_side (hMirrors : book.Mirrors a) (hValid : a.Valid) (side : Side) :
    (book.orders.filter fun order => decide (order.side = side)).Perm (a.queue side) := by
  have hOrders : a.orders.Perm (a.queue side ++ a.queue side.opposite) := by
    cases side with
    | buy => exact List.Perm.refl _
    | sell => exact perm_append_comm
  have hKeep : (a.queue side).filter (fun order => decide (order.side = side)) = a.queue side := by
    rw [filter_eq_self]
    intro order hMem
    exact decide_eq_true (hValid.side_eq side order hMem)
  have hDrop : (a.queue side.opposite).filter (fun order => decide (order.side = side)) = [] := by
    rw [filter_eq_nil_iff]
    intro order hMem
    rw [hValid.side_eq _ order hMem, decide_eq_true_eq]
    exact Side.opposite_ne side
  have hFilter := (hMirrors.orders.trans hOrders).filter fun order => decide (order.side = side)
  rw [filter_append, hKeep, hDrop, append_nil] at hFilter
  exact hFilter

/-- Not sorting behind is a total preorder, as the sort requires. -/
instance sortsBefore_total (side : Side) :
    Std.Total fun a b : Order => sortsBefore side b a = false where
  total := by
    intro a b
    cases side <;> simp only [sortsBefore] <;> grind

instance sortsBefore_trans (side : Side) :
    IsTrans Order fun a b : Order => sortsBefore side b a = false where
  trans := by
    intro a b c hab hbc
    cases side <;> simp only [sortsBefore] at * <;> grind

/-- Sorting recovers the queue. -/
theorem Mirrors.sideOrders_eq (hMirrors : book.Mirrors a) (hValid : a.Valid)
    (hTimed : a.Timed bound) (side : Side) : book.sideOrders side = a.queue side := by
  -- In the queue, what stands ahead sorts strictly before.
  have hQueue : (a.queue side).Pairwise fun ahead behind =>
      sortsBefore side ahead behind = true := by
    have hSides := hValid.side_eq side
    have hBoth := (hValid.sorted side).and (hTimed.ordered side)
    refine hBoth.imp_of_mem fun {x y} _ hy hOrder => ?_
    obtain ⟨hYields, hStamps⟩ := hOrder
    have hSide := hSides y hy
    cases side <;>
      simp only [Order.yieldsTo, Order.isBuy, hSide, sortsBefore] at * <;> grind
  have hAsymm : ∀ x y, sortsBefore side x y = true → sortsBefore side y x = false := by
    intro x y hxy
    cases side <;> simp only [sortsBefore] at * <;> grind
  have hSorted := pairwise_insertionSort (fun x y : Order => sortsBefore side y x = false)
    (book.orders.filter fun order => decide (order.side = side))
  have hPerm := (perm_insertionSort (fun x y : Order => sortsBefore side y x = false)
    (book.orders.filter fun order => decide (order.side = side))).trans
      (hMirrors.filter_side hValid side)
  apply hPerm.eq_of_pairwise ?_ hSorted (hQueue.imp fun h => hAsymm _ _ h)
  -- Two orders of the queue that do not sort before one another are one order.
  have hSymm : Std.Symm fun x y : Order =>
      sortsBefore side x y = true ∨ sortsBefore side y x = true :=
    ⟨fun _ _ h => h.symm⟩
  have hEither := List.Pairwise.forall (hQueue.imp fun {x y} h =>
    (Or.inl h : sortsBefore side x y = true ∨ sortsBefore side y x = true))
  intro x y hx hy hxy hyx
  by_contra hNe
  rcases hEither (hPerm.subset hx) hy hNe with h | h
  · rw [hyx] at h
    contradiction
  · rw [hxy] at h
    contradiction

/-! ### Depth -/

theorem priceBefore_iff (side : Side) (x y : Int) :
    priceBefore side x y = true ↔ Better side x y := by
  cases side <;> simp [priceBefore, Better]

variable {side : Side} {orders : List Order}

/-- Adding an order to a sorted map adds its price to the keys and its quantity
to its own level. -/
theorem addToLevels_eq {order : Order} {prices : List Int} (hSorted : prices.Pairwise (Better side))
    (hAbsent : order.price ∉ prices → ∀ o ∈ orders, o.price ≠ order.price) :
    ∃ prices' : List Int, addToLevels side order (prices.map (levelAt orders)) =
        prices'.map (levelAt (orders ++ [order])) ∧
      prices'.Pairwise (Better side) ∧ ∀ p, p ∈ prices' ↔ p = order.price ∨ p ∈ prices := by
  have hSelf := levelAt_append_self orders order
  have hOthers : ∀ ps : List Int, order.price ∉ ps →
      ps.map (levelAt (orders ++ [order])) = ps.map (levelAt orders) := fun ps hNot =>
    map_congr_left fun p hp => levelAt_append fun hEq => hNot (hEq ▸ hp)
  have hNew : (∀ o ∈ orders, o.price ≠ order.price) → levelAt (orders ++ [order]) order.price =
        { price := order.price, quantity := Word64.add 0 order.remaining, orderCount := 1 } := by
    intro hNone
    rw [hSelf, levelAt_of_absent hNone]
  -- The keys are searched from the best one on.
  induction prices with
  | nil =>
    refine ⟨[order.price], ?_, pairwise_singleton _ _, fun p => by simp⟩
    rw [map_singleton, hNew (hAbsent (by simp))]
    rfl
  | cons price rest ih =>
    obtain ⟨hFirst, hRest⟩ := pairwise_cons.mp hSorted
    rw [map_cons, addToLevels]
    by_cases hEq : order.price = price
    · subst hEq
      have hNot : order.price ∉ rest := fun hMem => (hFirst _ hMem).ne rfl
      refine ⟨order.price :: rest, ?_, hSorted, fun p => by simp⟩
      rw [if_pos (show order.price = (levelAt orders order.price).price from rfl),
        map_cons, hSelf, hOthers rest hNot]
    have hNe : (levelAt orders price).price = price := rfl
    rw [hNe, if_neg hEq]
    by_cases hBefore : priceBefore side order.price price = true
    · have hBetter := (priceBefore_iff side _ _).mp hBefore
      have hNot : order.price ∉ price :: rest := by
        intro hMem
        rcases mem_cons.mp hMem with h | h
        · exact hEq h
        · exact (hBetter.trans (hFirst _ h)).ne rfl
      refine ⟨order.price :: price :: rest, ?_, ?_, fun p => by simp⟩
      · rw [if_pos hBefore, map_cons, hNew (hAbsent hNot), hOthers _ hNot, map_cons]
      · refine pairwise_cons.mpr ⟨fun p hp => ?_, hSorted⟩
        rcases mem_cons.mp hp with rfl | h
        · exact hBetter
        · exact hBetter.trans (hFirst _ h)
    · have hAfter : Better side price order.price := by
        rcases better_or_eq_or_better side order.price price with h | h | h
        · exact absurd ((priceBefore_iff side _ _).mpr h) hBefore
        · exact absurd h hEq
        · exact h
      obtain ⟨prices', hLevels, hSorted', hMem'⟩ := ih hRest fun hNot =>
        hAbsent fun hIn => hNot ((mem_cons.mp hIn).resolve_left hEq)
      refine ⟨price :: prices', ?_, ?_, fun p => ?_⟩
      · rw [if_neg hBefore, hLevels, map_cons, levelAt_append hEq]
      · refine pairwise_cons.mpr ⟨fun p hp => ?_, hSorted'⟩
        rcases (hMem' p).mp hp with rfl | h
        · exact hAfter
        · exact hFirst p h
      · rw [mem_cons, mem_cons, hMem']
        exact or_left_comm

/-- The map `depth` builds aggregates the orders it has seen. -/
theorem aggregates_foldl (side : Side) (orders later : List Order) (levels : List DepthLevel)
    (hLevels : Aggregates side orders levels) :
    Aggregates side (orders ++ later)
      (later.foldl (fun levels order => addToLevels side order levels) levels) := by
  induction later generalizing orders levels with
  | nil => simpa using hLevels
  | cons order later ih =>
    obtain ⟨prices, rfl, hSorted, hCovers⟩ := hLevels
    obtain ⟨prices', hNext, hSorted', hMem'⟩ := addToLevels_eq hSorted fun hNot o ho hPrice =>
      hNot ((hCovers _).mpr ⟨o, ho, hPrice⟩)
    have hStep : Aggregates side (orders ++ [order])
        (addToLevels side order (prices.map (levelAt orders))) := by
      refine ⟨prices', hNext, hSorted', fun p => ?_⟩
      rw [hMem', hCovers]
      constructor
      · intro h
        rcases h with rfl | ⟨o, ho, hPrice⟩
        · exact ⟨order, by simp, rfl⟩
        · exact ⟨o, by simp [ho], hPrice⟩
      · intro ⟨o, ho, hPrice⟩
        rcases mem_append.mp ho with ho | ho
        · exact Or.inr ⟨o, ho, hPrice⟩
        · rw [mem_singleton.mp ho] at hPrice
          exact Or.inl hPrice.symm
    have hRest := ih (orders ++ [order]) _ hStep
    rw [append_assoc, singleton_append] at hRest
    exact hRest

theorem aggregates_levelsOf (book : ReferenceBook) (side : Side) :
    Aggregates side (book.orders.filter fun order => decide (order.side = side))
      (book.levelsOf side) := by
  have hFold := aggregates_foldl side []
    (book.orders.filter fun order => decide (order.side = side)) []
    ⟨[], rfl, List.Pairwise.nil, fun p => by simp⟩
  rw [nil_append, foldl_filter] at hFold
  simp only [decide_eq_true_eq] at hFold
  exact hFold

/-! ### Top of book -/

/-- The first loop keeps the best price seen. -/
theorem foldl_best {price : Int} (hReal : ∀ order ∈ orders, order.price ≠ noPrice)
    (hMem : ∃ order ∈ orders, order.price = price)
    (hBest : ∀ order ∈ orders, order.price = price ∨ Better side price order.price) :
    orders.foldl (fun best order =>
      if improves side order.price best = true then order.price else best) noPrice = price := by
  have hImproves : ∀ x y : Int, y ≠ noPrice → (improves side x y = true ↔ Better side x y) := by
    intro x y hy
    cases side <;> simp [improves, Better, hy]
  -- Nothing improves on the best price once it is reached.
  have hStays : ∀ l : List Order, (∀ o ∈ l, o ∈ orders) → price ≠ noPrice →
      l.foldl (fun best order =>
        if improves side order.price best = true then order.price else best) price = price := by
    intro l hSub hNe
    induction l with
    | nil => rfl
    | cons o l ih =>
      have hKeep : ¬ improves side o.price price = true := by
        rw [hImproves _ _ hNe]
        rcases hBest o (hSub o (by simp)) with h | h
        · rw [h]
          exact fun hSelf => hSelf.ne rfl
        · exact h.asymm
      rw [foldl_cons, if_neg hKeep]
      exact ih fun x hx => hSub x (by simp [hx])
  have hLoop : ∀ (l : List Order) (best : Int), (∀ o ∈ l, o ∈ orders) →
      (best = noPrice ∨ Better side price best) → (∃ o ∈ l, o.price = price) →
      l.foldl (fun best order =>
        if improves side order.price best = true then order.price else best) best = price := by
    intro l
    induction l with
    | nil =>
      rintro best - - ⟨o, ho, -⟩
      cases ho
    | cons o l ih =>
      intro best hSub hBehind hHas
      rw [foldl_cons]
      have hoReal := hReal o (hSub o (by simp))
      by_cases hHit : o.price = price
      · have hTaken : improves side o.price best = true := by
          rcases hBehind with rfl | hBetter
          · simp [improves]
          by_cases hUnset : best = noPrice
          · simp [improves, hUnset]
          · rw [hImproves _ _ hUnset, hHit]
            exact hBetter
        rw [if_pos hTaken, hHit]
        exact hStays l (fun x hx => hSub x (by simp [hx])) (hHit ▸ hoReal)
      · have hWorse : Better side price o.price :=
          (hBest o (hSub o (by simp))).resolve_left hHit
        apply ih _ (fun x hx => hSub x (by simp [hx]))
        · split
          · exact Or.inr hWorse
          · exact hBehind
        · obtain ⟨x, hx, hPrice⟩ := hHas
          rcases mem_cons.mp hx with rfl | hx
          · exact absurd hPrice hHit
          · exact ⟨x, hx, hPrice⟩
  exact hLoop orders noPrice (fun _ h => h) (Or.inl rfl) hMem

theorem foldl_quantity (price : Int) (orders : List Order) (total : Nat) :
    orders.foldl (fun total order =>
      if order.price = price then Word64.add total order.remaining else total)
        (Word64.wrap total) = Word64.wrap (total + quantityAt orders price) := by
  induction orders generalizing total with
  | nil => simp [quantityAt]
  | cons order orders ih =>
    rw [foldl_cons]
    by_cases hPrice : order.price = price
    · rw [if_pos hPrice, Word64.add_wrap, ih]
      simp [quantityAt, hPrice, Nat.add_assoc]
    · rw [if_neg hPrice, ih]
      simp [quantityAt, hPrice]

/-- The two loops of `top_of_book` read off the first level. -/
theorem top_eq {levels : List DepthLevel} (hReal : ∀ order ∈ orders, order.price ≠ noPrice)
    (hLevels : Aggregates side orders levels) :
    (orders.foldl (fun best order =>
        if improves side order.price best = true then order.price else best) noPrice =
      (topOf levels).1) ∧
    orders.foldl (fun total order =>
        if order.price = (topOf levels).1 then Word64.add total order.remaining else total) 0 =
      (topOf levels).2 := by
  obtain ⟨prices, rfl, hSorted, hCovers⟩ := hLevels
  cases prices with
  | nil =>
    have hNil : orders = [] := by
      rw [eq_nil_iff_forall_not_mem]
      intro order hMem
      have := (hCovers order.price).mpr ⟨order, hMem, rfl⟩
      simp at this
    rw [hNil]
    exact ⟨rfl, rfl⟩
  | cons price rest =>
    obtain ⟨hFirst, -⟩ := pairwise_cons.mp hSorted
    constructor
    · apply foldl_best hReal ((hCovers price).mp (by simp))
      intro order hMem
      have hIn := (hCovers order.price).mpr ⟨order, hMem, rfl⟩
      rcases mem_cons.mp hIn with h | h
      · exact Or.inl h
      · exact Or.inr (hFirst _ h)
    · have hSum := foldl_quantity price orders 0
      rw [Word64.wrap_zero, Nat.zero_add] at hSum
      exact hSum

/-- A mirrored book reports what its orders aggregate to. -/
theorem Mirrors.reports (hMirrors : book.Mirrors a) (hValid : a.Valid) :
    Reports a.instrument (a.queue .buy) (a.queue .sell) book.topOfBook book.depth := by
  have hInstrument := hMirrors.instrument
  have hLevels : ∀ side, Aggregates side (a.queue side) (book.levelsOf side) := by
    intro side
    obtain ⟨prices, hEq, hSorted, hCovers⟩ := aggregates_levelsOf book side
    have hPerm := hMirrors.filter_side hValid side
    refine ⟨prices, ?_, hSorted, fun p => ?_⟩
    · rw [hEq]
      exact map_congr_left fun p _ => levelAt_perm hPerm p
    · rw [hCovers]
      exact ⟨fun ⟨o, ho, h⟩ => ⟨o, hPerm.subset ho, h⟩,
        fun ⟨o, ho, h⟩ => ⟨o, hPerm.symm.subset ho, h⟩⟩
  have hTop : ∀ side, book.bestPrice side = (topOf (book.levelsOf side)).1 ∧
      book.quantityAtBest side = (topOf (book.levelsOf side)).2 := by
    intro side
    have hReal : ∀ order ∈ book.orders.filter fun order => decide (order.side = side),
        order.price ≠ noPrice := by
      intro order hMem
      have hPrice := (hValid.rests side order
        ((hMirrors.filter_side hValid side).subset hMem)).price
      simp only [Instrument.isValidPrice, Bool.and_eq_true, decide_eq_true_eq] at hPrice
      exact hPrice.1.1.1.ne'
    obtain ⟨hBest, hQuantity⟩ := top_eq hReal (aggregates_levelsOf book side)
    have hBestEq : book.bestPrice side = (topOf (book.levelsOf side)).1 := by
      rw [← hBest, bestPrice, foldl_filter]
      simp only [decide_eq_true_eq, ← ite_and]
    refine ⟨hBestEq, ?_⟩
    rw [← hQuantity, quantityAtBest, hBestEq, foldl_filter]
    simp only [decide_eq_true_eq, ← ite_and]
  refine ⟨book.levelsOf .buy, book.levelsOf .sell, hLevels .buy, hLevels .sell,
    fun maxLevels => by rw [depth, hInstrument], ?_⟩
  rw [topOfBook, hInstrument, (hTop .buy).1, (hTop .buy).2, (hTop .sell).1, (hTop .sell).2]

end Queries

/-! ## Streams -/

/-- The reference book obeying a command. -/
def apply (book : ReferenceBook) (fills : List Fill) : BookCommand → Answer BookReply
  | .submit order =>
    let answer := book.submit order fills
    ⟨answer.book, .submitted answer.result, answer.fills⟩
  | .cancel id => ⟨(book.cancel id).1, .cancelled (book.cancel id).2, fills⟩
  | .replace id newPrice newQuantity newSequence now =>
    let answer := book.replace id newPrice newQuantity newSequence now fills
    ⟨answer.book, .replaced answer.result, answer.fills⟩

/-- A command whose order, if it has one, has not traded yet. -/
def Whole : BookCommand → Prop
  | .submit order => order.remaining = order.quantity
  | _ => True

instance (command : BookCommand) : Decidable (Whole command) := by
  rcases command with _ | _ <;> dsimp only [Whole] <;> infer_instance

/-- The reference book obeys a command as the abstract one does. -/
theorem Mirrors.apply {book : ReferenceBook} {a : Book} {bound : Nat} (hMirrors : book.Mirrors a)
    (hValid : a.Valid) (hTimed : a.Timed bound) {command : BookCommand} (hWhole : Whole command)
    (fills : List Fill) (withdrawals : List Withdrawal) :
    Agrees (book.apply fills command) (a.apply a.canFill fills withdrawals command) := by
  cases command with
  | submit order =>
    have hOrder : { order with remaining := order.quantity } = order :=
      Order.setRemaining_eq hWhole
    have hSubmit := hMirrors.submit hValid hTimed order (fun hZero => by
      rw [← show order.remaining = order.quantity from hWhole, hZero]) fills withdrawals
    dsimp only [Book.apply, Book.submit]
    rw [hOrder]
    exact ⟨hSubmit.mirrors, congrArg BookReply.submitted hSubmit.result, hSubmit.fills⟩
  | cancel id =>
    obtain ⟨hAfter, hResult⟩ := hMirrors.cancel hValid id
    exact ⟨hAfter, congrArg BookReply.cancelled hResult, rfl⟩
  | replace id newPrice newQuantity newSequence now =>
    have hReplace := hMirrors.replace hValid hTimed id newPrice newQuantity newSequence now
      fills withdrawals
    exact ⟨hReplace.mirrors, congrArg BookReply.replaced hReplace.result, hReplace.fills⟩

end ReferenceBook

/-- Everything a command shows: its reply, the fills it appended, and the book it
leaves, in matching order, at its top and to any depth. -/
structure Observation where
  reply : BookReply
  fills : List Fill
  restingOrders : List Order
  topOfBook : TopOfBook
  depth : Nat → DepthSnapshot

/-- What a stream of commands shows, step by step. -/
def OrderBook.observe (book : OrderBook) : List BookCommand → List Observation
  | [] => []
  | command :: commands =>
    let outcome := book.apply [] [] command
    ⟨outcome.result, outcome.fills, outcome.book.restingOrders, outcome.book.topOfBook,
      outcome.book.depth⟩ :: outcome.book.observe commands

def ReferenceBook.observe (book : ReferenceBook) : List BookCommand → List Observation
  | [] => []
  | command :: commands =>
    let answer := book.apply [] command
    ⟨answer.result, answer.fills, answer.book.restingOrders, answer.book.topOfBook,
      answer.book.depth⟩ :: answer.book.observe commands

namespace OrderBook

/-- A kept book and a reference book that mirrors what it stands for. -/
structure Paired (book : OrderBook) (reference : ReferenceBook) (bound : Nat) : Prop where
  kept : book.Kept
  timed : book.abs.Timed bound
  mirrors : reference.Mirrors book.abs

section Paired

variable {book : OrderBook} {reference : ReferenceBook} {bound : Nat}

/-- While a side fits a word, the book's verdict is the abstract one. -/
theorem Kept.apply_verdict (hKept : book.Kept) (hFits : book.Fits) (fills : List Fill)
    (withdrawals : List Withdrawal) (command : BookCommand) :
    book.abs.apply book.verdict fills withdrawals command =
      book.abs.apply book.abs.canFill fills withdrawals command := by
  cases command with
  | submit order =>
    dsimp only [Book.apply]
    rw [hKept.sound.verdict_eq (by rw [queue_abs]; exact hFits _)]
  | cancel id => rfl
  | replace id newPrice newQuantity newSequence now => rfl

variable (hPaired : Paired book reference bound)
include hPaired

/-- Paired books answer a command alike and stay paired. -/
theorem Paired.apply (hFits : book.Fits)
    (command : BookCommand) (hWhole : ReferenceBook.Whole command)
    (hLate : ∀ stamp ∈ command.sequence, bound ≤ stamp) :
    (book.apply [] [] command).result = (reference.apply [] command).result ∧
      (book.apply [] [] command).fills = (reference.apply [] command).fills ∧
      Paired (book.apply [] [] command).book (reference.apply [] command).book
        ((command.sequence.map (· + 1)).getD bound) := by
  have hRefines := hPaired.kept.refines [] [] command
  rw [hPaired.kept.apply_verdict hFits] at hRefines
  have hAgrees := hPaired.mirrors.apply hPaired.kept.valid hPaired.timed hWhole [] []
  refine ⟨hRefines.result.trans hAgrees.result.symm, hRefines.fills.trans hAgrees.fills.symm, ?_⟩
  refine ⟨hPaired.kept.apply [] [] command,
    hPaired.kept.timed hPaired.timed [] [] command hLate, ?_⟩
  rw [hRefines.book]
  exact hAgrees.mirrors

/-- Paired books look alike. -/
theorem Paired.sees :
    book.restingOrders = reference.restingOrders ∧ book.topOfBook = reference.topOfBook ∧
      book.depth = reference.depth := by
  have hSide : ∀ side, reference.sideOrders side = book.sideOrders side := by
    intro side
    rw [hPaired.mirrors.sideOrders_eq hPaired.kept.valid hPaired.timed, queue_abs]
  refine ⟨?_, ?_⟩
  · rw [restingOrders, ReferenceBook.restingOrders, hSide, hSide]
  · exact hPaired.kept.sound.reports.unique (hPaired.mirrors.reports hPaired.kept.valid)
      (List.Perm.refl _) (List.Perm.refl _)

/-- Along a stream of late enough commands, paired books show the same. -/
theorem Paired.observe_eq {commands : List BookCommand}
    (hWhole : ∀ command ∈ commands, ReferenceBook.Whole command)
    (hIncreasing : BookCommand.Increasing commands)
    (hLate : ∀ stamp ∈ commands.filterMap BookCommand.sequence, bound ≤ stamp)
    (hFits : ∀ k ≤ commands.length, (book.run (commands.take k)).Fits) :
    book.observe commands = reference.observe commands := by
  induction commands generalizing book reference bound with
  | nil => rfl
  | cons command commands ih =>
    obtain ⟨hResult, hFills, hNext⟩ := hPaired.apply (hFits 0 (Nat.zero_le _)) command
      (hWhole command (by simp)) fun stamp hStamp => hLate stamp (by
        rw [mem_filterMap]
        exact ⟨command, by simp, hStamp⟩)
    obtain ⟨hOrders, hTop, hDepth⟩ := hNext.sees
    have hRest : (book.apply [] [] command).book.observe commands =
        (reference.apply [] command).book.observe commands := by
      obtain ⟨hIncreasing', hLate'⟩ := BookCommand.Increasing.tail hIncreasing hLate
      apply ih hNext (fun c hc => hWhole c (by simp [hc])) hIncreasing' hLate'
      intro k hk
      exact hFits (k + 1) (Nat.succ_le_succ hk)
    rw [observe, ReferenceBook.observe, hResult, hFills, hOrders, hTop, hDepth, hRest]

end Paired

/-- The slab-and-ladder book shows what the naive one shows, on every stream of
increasing commands. -/
theorem observe_eq_reference (instrument : Instrument) (hWellFormed : instrument.WellFormed)
    (initialCapacity : Nat) (commands : List BookCommand)
    (hIncreasing : BookCommand.Increasing commands)
    (hWhole : ∀ command ∈ commands, ReferenceBook.Whole command) (hFits : ∀ k ≤ commands.length,
      ((create instrument initialCapacity).run (commands.take k)).Fits) :
    (create instrument initialCapacity).observe commands =
      ReferenceBook.observe { instrument := instrument } commands := by
  have hTick : 0 < instrument.tickSize := hWellFormed.tick_pos
  have hPaired : Paired (create instrument initialCapacity) { instrument := instrument } 0 := by
    refine ⟨kept_create hTick initialCapacity, ?_, ?_⟩
    · rw [abs_create hTick]
      exact Book.timed_empty instrument 0
    · rw [abs_create hTick]
      exact ⟨rfl, rfl, List.Perm.refl _⟩
  exact hPaired.observe_eq hWhole hIncreasing (fun stamp _ => Nat.zero_le stamp) hFits

theorem observe_eq_reference_sample :
    (create sampleInstrument 1).observe sampleCommands =
      ReferenceBook.observe { instrument := sampleInstrument } sampleCommands := by
  have hWellFormed : sampleInstrument.WellFormed :=
    ⟨by decide, by decide, by decide, by decide⟩
  have hWhole : ∀ command ∈ sampleCommands, ReferenceBook.Whole command := by decide
  have hFits : ∀ k ∈ List.range (sampleCommands.length + 1),
      ((create sampleInstrument 1).run (sampleCommands.take k)).Fits := by
    decide +kernel
  exact observe_eq_reference sampleInstrument hWellFormed 1 sampleCommands (by decide) hWhole
    fun k hk => hFits k (List.mem_range.mpr (Nat.lt_succ_of_le hk))

end OrderBook
end ExchangeCore
