import ExchangeCore.Core.FillVerdict
import ExchangeCore.PriceTime.Renumbering

/-!
# Renumbering an order book

Two order books whose abstract books differ in sequence numbers only, by a function
`f`, answer a command alike when it is stamped `n` in one and `f n` in the other,
and are left in the same relation.  With `f` the identity this says that a book's
answers depend on nothing but the abstract book.
-/

namespace ExchangeCore

open PriceTime

/-- The command with another stamp. -/
def BookCommand.renumber (f : Nat → Nat) : BookCommand → BookCommand
  | .submit order => .submit (order.renumber f)
  | .cancel id => .cancel id
  | .replace id newPrice newQuantity newSequence now =>
    .replace id newPrice newQuantity (f newSequence) now

def BookReply.renumber (f : Nat → Nat) : BookReply → BookReply
  | .submitted result => .submitted result
  | .cancelled result => .cancelled (result.renumber f)
  | .replaced result => .replaced (result.renumber f)

/-- The abstract book obeys the renumbered command as the original obeys its own, the
verdicts being those of two books. -/
theorem PriceTime.Book.apply_renumber {f : Nat → Nat} (hZero : f 0 = 0) (book : Book)
    {verdict verdict' : Order → Bool}
    (hVerdict : ∀ order, verdict' (order.renumber f) = verdict order) (fills : List Fill)
    (withdrawals : List Withdrawal) (command : BookCommand) :
    (book.renumber f).apply verdict' fills withdrawals (command.renumber f) =
      (book.apply verdict fills withdrawals command).map (Book.renumber f)
        (BookReply.renumber f) := by
  cases command with
  | submit order =>
    have hWhole : ({ order.renumber f with remaining := (order.renumber f).quantity } : Order) =
        ({ order with remaining := order.quantity } : Order).renumber f := rfl
    dsimp only [BookCommand.renumber, Book.apply, Book.submit]
    rw [hWhole, hVerdict, Book.insert_renumber]
    rfl
  | cancel id =>
    dsimp only [BookCommand.renumber, Book.apply]
    rw [Book.cancel_renumber book hZero]
    rfl
  | replace id newPrice newQuantity newSequence now =>
    dsimp only [BookCommand.renumber, Book.apply]
    rw [Book.replace_renumber book hZero]
    rfl

namespace OrderBook

/-- A refinement as an equation. -/
theorem Refines.map_abs {R : Type} {outcome : Outcome OrderBook R} {spec : Outcome Book R}
    (hRefines : Refines outcome spec) : outcome.map abs id = spec := by
  obtain ⟨-, hBook, hResult, hFills, hWithdrawals⟩ := hRefines
  rw [Outcome.map, hBook, hFills, hWithdrawals, id_eq, hResult]

section Renumbering

variable {book book' : OrderBook} {f : Nat → Nat}

/-- The verdict on a fill-or-kill order does not look at numbers. -/
theorem Sound.verdict_renumber (hSound : book.Sound) (hSound' : book'.Sound)
    (hAbs : book'.abs = book.abs.renumber f) (order : Order) :
    book'.verdict (order.renumber f) = book.verdict order := by
  have hInstrument : book'.instrument = book.instrument := congrArg Book.instrument hAbs
  have hQueue : ∀ side, (book'.sideOrders side).map Order.offer =
      (book.sideOrders side).map Order.offer := by
    intro side
    have hSide := congrArg (fun abstract => abstract.queue side) hAbs
    rw [Book.queue_renumber, queue_abs, queue_abs] at hSide
    rw [hSide, List.map_map]
    rfl
  exact hSound'.verdict_congr hSound hInstrument (hQueue order.side.opposite)

/-- Books that stand for the same book up to numbers stay so, and answer alike. -/
theorem Kept.apply_renumber (hKept : book.Kept) (hKept' : book'.Kept) (hZero : f 0 = 0)
    (hAbs : book'.abs = book.abs.renumber f) (fills : List Fill)
    (withdrawals : List Withdrawal) (command : BookCommand) :
    (book'.apply fills withdrawals (command.renumber f)).map abs id =
      (book.apply fills withdrawals command).map (fun after => after.abs.renumber f)
        (BookReply.renumber f) := by
  rw [(hKept'.refines fills withdrawals (command.renumber f)).map_abs, hAbs,
    Book.apply_renumber hZero book.abs (hKept.sound.verdict_renumber hKept'.sound hAbs),
    ← (hKept.refines fills withdrawals command).map_abs]
  rfl

end Renumbering

end OrderBook
end ExchangeCore
