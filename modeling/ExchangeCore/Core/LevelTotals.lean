import ExchangeCore.Core.BookQueries
import ExchangeCore.Core.CommandReports
import ExchangeCore.Core.EngineRun

/-!
# Level totals

Totals are kept in 64-bit words that nothing bounds: the word of a level is the word of
what rests there.  The quantities a book reports are the true ones exactly as long as what
rests at each price fits a word, and as long as what rests on either side does, a
fill-or-kill order is refused only for want of quantity (`run_totals_exact`).
-/

namespace ExchangeCore

open PriceTime

namespace OrderBook

/-- What the level at a price says rests there. -/
def quantityAt (book : OrderBook) (side : Side) (price : Int) : Nat :=
  match (book.ladder side).find price with
  | none => 0
  | some i => ((book.ladder side).level i).totalQuantity

/-- What rests at each price fits a word. -/
def LevelsFit (book : OrderBook) : Prop :=
  ∀ side price, PriceTime.quantityAt (book.sideOrders side) price < Word64.modulus

/-- The reported quantities are the true sums. -/
structure Exact (book : OrderBook) : Prop where
  quantityAt : ∀ side price,
    book.quantityAt side price = PriceTime.quantityAt (book.sideOrders side) price
  bids : ∀ maxLevels, ∀ level ∈ (book.depth maxLevels).bids,
    level.quantity = PriceTime.quantityAt (book.sideOrders .buy) level.price
  asks : ∀ maxLevels, ∀ level ∈ (book.depth maxLevels).asks,
    level.quantity = PriceTime.quantityAt (book.sideOrders .sell) level.price
  top : book.topOfBook.bidQuantity =
      PriceTime.quantityAt (book.sideOrders .buy) book.topOfBook.bidPrice ∧
    book.topOfBook.askQuantity =
      PriceTime.quantityAt (book.sideOrders .sell) book.topOfBook.askPrice

/-- A fill-or-kill order is not refused while what it can trade with reaches its quantity. -/
def FillsWhole (book : OrderBook) : Prop :=
  ∀ (order : Order) fills withdrawals, order.tif = .fillOrKill →
    book.validate order = .none → (order.postOnly && book.wouldCross order) = false →
    order.quantity ≤ book.abs.fillableQuantity { order with remaining := order.quantity } →
    (book.submit order fills withdrawals).result.reject = .none

section Totals

variable {book : OrderBook} {q : Queues} {free : List OrderHandle} {side : Side}

/-- The word at a price is that of the sum, occupied or not. -/
theorem Rep.quantityAt_eq (hRep : Rep book q free) (side : Side) (price : Int) :
    book.quantityAt side price =
      Word64.wrap (PriceTime.quantityAt (book.sideOrders side) price) := by
  have hLaid := hRep.laid side
  have hTick : 0 < (book.ladder side).tick := hLaid.tick ▸ hRep.tick_pos
  rw [hRep.sideOrders_eq]
  unfold quantityAt
  cases hFind : (book.ladder side).find price with
  | none =>
    -- an order at this price would have its level marked
    have hNone :
        (viewQueue book q side).filter (fun order => decide (order.price = price)) = [] := by
      refine List.filter_eq_nil_iff.mpr fun order hOrder hPrice => ?_
      obtain ⟨h, hh, rfl⟩ := List.mem_map.mp hOrder
      obtain ⟨i, hLt, hi⟩ := Queues.mem_handles.mp hh
      have hIndex : (book.ladder side).indexOf price = some i := by
        rw [PriceLadder.indexOf_eq_some_iff hTick, hLaid.length, hLaid.priceAt,
          ← of_decide_eq_true hPrice]
        exact ⟨hLt, (hRep.placed side i h hi).2⟩
      rw [PriceLadder.find, hIndex] at hFind
      cases (if_pos (hRep.marked side i (List.ne_nil_of_mem hi))).symm.trans hFind
    rw [PriceTime.quantityAt, hNone]
    rfl
  | some i =>
    unfold PriceLadder.find at hFind
    split at hFind
    · cases hFind
    next index hIndex =>
    split at hFind
    · cases hFind
      obtain ⟨hLt, rfl⟩ := (PriceLadder.indexOf_eq_some_iff hTick price i).mp hIndex
      exact congrArg DepthLevel.quantity (hRep.levelAt_eq (hLaid.length ▸ hLt))
    · cases hFind

theorem levelsFit_of_fits (hFits : book.Fits) : book.LevelsFit := fun side _ =>
  ((List.filter_sublist.map Order.remaining).sum_le_sum fun _ _ => Nat.zero_le _).trans_lt
    (hFits side)

variable {levels : List DepthLevel}

/-- Every level reported is that of its price. -/
theorem exact_of_aggregates (hFits : book.LevelsFit)
    (hLevels : Aggregates side (book.sideOrders side) levels) {level : DepthLevel}
    (hMem : level ∈ levels) :
    level.quantity = PriceTime.quantityAt (book.sideOrders side) level.price := by
  obtain ⟨prices, rfl, -, -⟩ := hLevels
  obtain ⟨price, -, rfl⟩ := List.mem_map.mp hMem
  exact Word64.wrap_of_lt (hFits side price)

theorem exact_top (hFits : book.LevelsFit)
    (hLevels : Aggregates side (book.sideOrders side) levels) :
    (topOf levels).2 = PriceTime.quantityAt (book.sideOrders side) (topOf levels).1 := by
  cases levels with
  | nil =>
    obtain ⟨prices, hPrices, -, hCovers⟩ := hLevels
    rw [List.map_eq_nil_iff.mp hPrices.symm] at hCovers
    have hNone : book.sideOrders side = [] := List.eq_nil_iff_forall_not_mem.mpr fun order hMem =>
      absurd ((hCovers order.price).mpr ⟨order, hMem, rfl⟩) List.not_mem_nil
    rw [hNone]
    rfl
  | cons level rest => exact exact_of_aggregates hFits hLevels List.mem_cons_self

theorem Kept.exact_iff (hKept : book.Kept) : book.Exact ↔ book.LevelsFit := by
  obtain ⟨q, free, hRep, -⟩ := hKept.sound
  constructor
  · intro hExact side price
    rw [← hExact.quantityAt, hRep.quantityAt_eq]
    exact Nat.mod_lt _ Word64.modulus_pos
  intro hFits
  obtain ⟨bidLevels, askLevels, hBids, hAsks, hDepth, hTop⟩ := hKept.sound.reports
  refine ⟨fun side price => ?_, fun maxLevels level hMem => ?_, fun maxLevels level hMem => ?_, ?_⟩
  · rw [hRep.quantityAt_eq]
    exact Word64.wrap_of_lt (hFits side price)
  · rw [hDepth] at hMem
    exact exact_of_aggregates hFits hBids (List.mem_of_mem_take hMem)
  · rw [hDepth] at hMem
    exact exact_of_aggregates hFits hAsks (List.mem_of_mem_take hMem)
  · rw [hTop]
    exact ⟨exact_top hFits hBids, exact_top hFits hAsks⟩

theorem Kept.fillsWhole (hKept : book.Kept) (hFits : book.Fits) : book.FillsWhole := by
  intro order fills withdrawals hKill hPasses hPost hEnough
  have hVerdict : book.verdict { order with remaining := order.quantity } = true := by
    rw [hKept.sound.verdict_eq (queue_abs .. ▸ hFits _), Book.canFill_eq]
    exact decide_eq_true hEnough
  obtain ⟨spec, hSpec, hReports⟩ := hKept.submit_reports fills withdrawals order
  rw [hReports.result_eq, ← hSpec, Book.reject_insert_iff]
  exact hKept.sound.accepts hPasses hPost hVerdict

end Totals

end OrderBook

namespace MatchingEngine

variable {J : Type} [JournalSink J]

/-- In every state of every run of the engine, whatever its risk limits: a book reports true
quantities exactly if its levels fit a word, and fills what it can if its sides do. -/
theorem run_totals_exact (journal : Option J) (risk : Option RiskEngine)
    (kill : Option KillSwitch) (events : List Event) (hTicked : ∀ event ∈ events, event.Ticked)
    (id : InstrumentId) (book : OrderBook)
    (hBook : ((start journal risk kill).run events).bookFor id = some book) :
    (book.Exact ↔ book.LevelsFit) ∧ (book.Fits → book.FillsWhole) := by
  have hKept := (((housed_start journal risk kill).run hTicked) id book hBook).1
  exact ⟨hKept.exact_iff, hKept.fillsWhole⟩

/-- Two purchases of the same size at one price. -/
def twoBids (quantity : Nat) : MatchingEngine Empty :=
  (start none none none).run
    [.addInstrument (sampleListing .allow) 0, .submit (sampleNewOrder 1 1 .buy 2 quantity false) 0,
      .submit (sampleNewOrder 2 2 .buy 2 quantity false) 0]

theorem run_totals_exact_five :
    ∃ book, (twoBids 5).bookFor ⟨1⟩ = some book ∧ book.Exact ∧ book.FillsWhole := by
  have hFits : ∀ book ∈ (twoBids 5).bookFor ⟨1⟩, book.Fits := by decide +kernel
  obtain ⟨book, hBook⟩ := Option.isSome_iff_exists.mp
    (show ((twoBids 5).bookFor ⟨1⟩).isSome = true by decide +kernel)
  obtain ⟨hExact, hWhole⟩ := run_totals_exact none none none _ (by decide) ⟨1⟩ book hBook
  exact ⟨book, hBook, hExact.mpr (OrderBook.levelsFit_of_fits (hFits book hBook)),
    hWhole (hFits book hBook)⟩

/-- Two halves of a word add up to nothing: every report says so, and a fill-or-kill sale
of one lot is refused. -/
theorem totals_wrap :
    ((twoBids (2 ^ 63)).bookFor ⟨1⟩).map (fun book => (book.quantityAt .buy 2,
        book.topOfBook.bidQuantity, (book.depth 1).bids.map DepthLevel.quantity,
        PriceTime.quantityAt (book.sideOrders .buy) 2)) = some (0, 0, [0], 2 ^ 64) ∧
      ((twoBids (2 ^ 63)).submit { sampleNewOrder 3 3 .sell 2 1 false with tif := .fillOrKill }
        0).2.result.reject = .fillOrKillUnfillable := by
  decide +kernel

end MatchingEngine
end ExchangeCore
