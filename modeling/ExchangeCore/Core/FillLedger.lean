import ExchangeCore.Core.BookRun
import ExchangeCore.PriceTime.Traded

/-!
# The fill ledger of a run

An observer who keeps every command, its answer and its fills can say of every
resting order how much it has traded: the fills that name it since the submission
that introduced it.  That is the order's own `filled` quantity, whatever was
amended, re-queued or withdrawn by prevention on the way.
-/

namespace ExchangeCore

open PriceTime

def BookReply.reject : BookReply → RejectReason
  | .submitted result => result.reject
  | .cancelled result => result.reject
  | .replaced result => result.reject

/-- One command of a run, with what it answered and printed. -/
structure BookEntry where
  command : BookCommand
  reply : BookReply
  fills : List Fill
  deriving DecidableEq

namespace BookEntry

/-- The command brought an order with this id in. -/
def introduces (entry : BookEntry) (id : OrderId) : Bool :=
  match entry.command with
  | .submit order => decide (order.id = id) && decide (entry.reply.reject = .none)
  | _ => false

/-- The fills to be attributed to an id after one more entry: an id starts afresh
with the submission that introduces it. -/
def since (id : OrderId) (fills : List Fill) (entry : BookEntry) : List Fill :=
  if entry.introduces id then entry.fills else fills ++ entry.fills

end BookEntry

/-- All fills since the submission that introduced the id last, its own
included. -/
def fillsSince (id : OrderId) (entries : List BookEntry) : List Fill :=
  entries.foldl (BookEntry.since id) []

namespace OrderBook

def entry (book : OrderBook) (command : BookCommand) : BookEntry :=
  let outcome := book.apply [] [] command
  ⟨command, outcome.result, outcome.fills⟩

/-- What an observer of a run has seen. -/
def history (book : OrderBook) : List BookCommand → List BookEntry
  | [] => []
  | command :: commands =>
    book.entry command :: history (book.apply [] [] command).book commands

/-- Every resting order has filled what `fills` attributes to its id. -/
def Balanced (book : OrderBook) (fills : OrderId → List Fill) : Prop :=
  ∀ order ∈ book.abs.orders, order.filled = Fill.tradedBy order.id (fills order.id)

section Steps

variable {book : OrderBook} {fills : OrderId → List Fill}

/-- An order that carries on from one that was there is attributed the fills of both
parts. -/
theorem Balanced.carried (hBalanced : book.Balanced fills) {entry : BookEntry} {x o : Order}
    (hMem : o ∈ book.abs.orders) (hCarries : Matching.Carries entry.fills x o)
    (hOld : entry.introduces x.id = false) :
    x.filled = Fill.tradedBy x.id (BookEntry.since x.id (fills x.id) entry) := by
  obtain ⟨hId, hFilled⟩ := hCarries
  rw [BookEntry.since, hOld, if_neg Bool.false_ne_true, Fill.tradedBy_append, hFilled,
    hBalanced o hMem, hId]

/-- One command keeps the attribution exact. -/
theorem Balanced.apply (hBalanced : book.Balanced fills) (hKept : book.Kept)
    (command : BookCommand) :
    (book.apply [] [] command).book.Balanced
      (fun id => BookEntry.since id (fills id) (book.entry command)) := by
  have hRefines := hKept.refines [] [] command
  obtain ⟨entry, hEntry⟩ : ∃ entry, book.entry command = entry := ⟨_, rfl⟩
  have hCommand : entry.command = command := hEntry ▸ rfl
  have hReply : entry.reply = (book.abs.apply book.verdict [] [] command).result :=
    hEntry ▸ hRefines.result
  have hFills : entry.fills = (book.abs.apply book.verdict [] [] command).fills :=
    hEntry ▸ hRefines.fills
  unfold Balanced
  rw [hRefines.book, hEntry]
  intro x hx
  cases command with
  | submit order =>
    generalize hWhole : { order with remaining := order.quantity } = whole
    have hId : whole.id = order.id := hWhole ▸ rfl
    have hInsert : book.abs.apply book.verdict [] [] (.submit order) =
        let outcome := book.abs.insert (book.verdict whole) whole [] []
        ⟨outcome.book, .submitted outcome.result, outcome.fills, outcome.withdrawals⟩ := by
      rw [← hWhole]
      rfl
    rw [hInsert] at hReply hFills hx
    rcases hKept.valid.insert_carries (hWhole ▸ le_rfl) rfl x hx with
      ⟨o, ho, hCarries⟩ | ⟨hAccepted, hCarries⟩
    · refine hBalanced.carried ho (hFills ▸ hCarries) ?_
      -- An id that rests already is not introduced again.
      rw [BookEntry.introduces, hCommand]
      simp only [Bool.and_eq_false_iff, decide_eq_false_iff_not]
      refine or_iff_not_imp_left.mpr fun hSame hAccepted => ?_
      rw [hReply] at hAccepted
      have hNew := Book.find_of_accepted rfl hAccepted
      exact Book.find_eq_none_iff.mp hNew o ho
        (hCarries.1.symm.trans ((not_not.mp hSame).symm.trans hId.symm))
    · obtain ⟨hSame, hFilled⟩ := hCarries
      have hNew : entry.introduces x.id = true := by
        rw [BookEntry.introduces, hCommand, hReply, hSame, hId]
        exact Bool.and_eq_true_iff.mpr ⟨decide_eq_true rfl, decide_eq_true hAccepted⟩
      have hUnfilled : whole.filled = 0 := by
        rw [← hWhole]
        exact Nat.sub_self _
      show x.filled = Fill.tradedBy x.id (BookEntry.since x.id (fills x.id) entry)
      rw [BookEntry.since, hNew, if_pos rfl, hFills, hFilled, hUnfilled, Nat.zero_add]
  | cancel id =>
    have hOld : entry.introduces x.id = false := by rw [BookEntry.introduces, hCommand]
    have hSelf : Matching.Carries entry.fills x x := by
      rw [hFills]
      exact ⟨rfl, rfl⟩
    exact hBalanced.carried (Book.mem_orders_cancel hx) hSelf hOld
  | replace id newPrice newQuantity newSequence now =>
    have hOld : entry.introduces x.id = false := by rw [BookEntry.introduces, hCommand]
    obtain ⟨o, ho, hCarries⟩ := hKept.valid.replace_carries rfl x hx
    exact hBalanced.carried ho (hFills ▸ hCarries) hOld

/-- A whole run, from books that are balanced already. -/
theorem Balanced.run (hBalanced : book.Balanced fills) (hKept : book.Kept)
    (commands : List BookCommand) :
    (book.run commands).Balanced
      (fun id => (book.history commands).foldl (BookEntry.since id) (fills id)) := by
  induction commands generalizing book fills with
  | nil => exact hBalanced
  | cons command commands ih =>
    exact ih (hBalanced.apply hKept command) (hKept.apply [] [] command)

end Steps

/-- In every run, under any self-trade policy, what a resting order has filled is
the quantity of the fills it took part in since the submission that introduced
it. -/
theorem filled_eq_traded (instrument : Instrument) (hTick : 0 < instrument.tickSize)
    (initialCapacity : Nat) (commands : List BookCommand) :
    ∀ order ∈ ((create instrument initialCapacity).run commands).restingOrders,
      order.remaining ≤ order.quantity ∧
        order.quantity - order.remaining = Fill.tradedBy order.id
          (fillsSince order.id ((create instrument initialCapacity).history commands)) := by
  have hStart := kept_create hTick initialCapacity
  have hBalanced : (create instrument initialCapacity).Balanced fun _ => [] := by
    unfold Balanced
    rw [abs_create hTick]
    intro order hMem
    cases hMem
  intro order hMem
  obtain ⟨side, hSide⟩ := Book.mem_orders.mp
    (show order ∈ ((create instrument initialCapacity).run commands).abs.orders from hMem)
  exact ⟨((hStart.run commands).valid.rests side order hSide).live.2,
    hBalanced.run hStart commands order hMem⟩

/-- An order is partly taken, amended to a new price where it takes in its turn,
and shrunk where it then rests. -/
def ledgerCommands : List BookCommand :=
  [.submit (sampleOrder 1 1 .sell 3 9 1), .submit (sampleOrder 2 2 .buy 3 2 2),
    .submit (sampleOrder 3 3 .buy 2 4 3), .replace ⟨1⟩ 2 9 4 0, .replace ⟨1⟩ 2 8 5 0]

theorem filled_eq_traded_sample :
    (((create sampleInstrument 1).run ledgerCommands).restingOrders.map fun order =>
        (order.id, order.quantity, order.remaining)) = [(⟨1⟩, 8, 2)] ∧
      ∀ order ∈ ((create sampleInstrument 1).run ledgerCommands).restingOrders,
        order.remaining ≤ order.quantity ∧ order.quantity - order.remaining = Fill.tradedBy order.id
            (fillsSince order.id ((create sampleInstrument 1).history ledgerCommands)) :=
  ⟨by decide +kernel, filled_eq_traded sampleInstrument (by decide) 1 ledgerCommands⟩

end OrderBook
end ExchangeCore
