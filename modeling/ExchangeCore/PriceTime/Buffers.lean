import ExchangeCore.PriceTime.Book

/-!
# The report buffers

The caller hands a command two buffers and finds the fills and withdrawals of the
command appended to them.  Nothing in a match reads them, so a command does with full
buffers what it does with empty ones, and what it appends is what it puts into empty
ones.
-/

namespace ExchangeCore

/-- The outcome with its reports appended to buffers that were not empty. -/
def Outcome.after {B R : Type} (outcome : Outcome B R) (fills : List Fill)
    (withdrawals : List Withdrawal) : Outcome B R :=
  { outcome with
    fills := fills ++ outcome.fills
    withdrawals := withdrawals ++ outcome.withdrawals }

namespace PriceTime
namespace Matching

variable {instrument : Instrument}

/-- The match with something in the buffers before it. -/
def after (m : Matching) (fills : List Fill) (withdrawals : List Withdrawal) : Matching :=
  { m with fills := fills ++ m.fills, withdrawals := withdrawals ++ m.withdrawals }

variable (fills : List Fill) (withdrawals : List Withdrawal)

theorem step_after (m : Matching) :
    (m.after fills withdrawals).step instrument =
      (m.step instrument).map fun next => next.after fills withdrawals := by
  obtain ⟨incoming, queue, nextTradeId, earlier, withdrawn, stpCancelled⟩ := m
  by_cases hUsed : incoming.remaining = 0
  · simp [step, after, hUsed]
  cases queue with
  | nil => simp [step, after, hUsed]
  | cons head rest =>
    cases hCrosses : incoming.crosses head.price with
    | false => simp [step, after, hCrosses]
    | true =>
      cases hOwn : instrument.prevents incoming.account head.account with
      | false => simp [step, after, hUsed, hCrosses, hOwn, trade]
      | true =>
        cases hPolicy : instrument.selfTradePolicy with
        | allow => simp [step, after, hUsed, hCrosses, hOwn, prevent, hPolicy]
        | cancelIncoming =>
          simp [step, after, hUsed, hCrosses, hOwn, prevent, hPolicy, cancelIncoming]
        | cancelResting =>
          simp [step, after, hUsed, hCrosses, hOwn, prevent, hPolicy, cancelResting]
        | cancelBoth =>
          simp [step, after, hUsed, hCrosses, hOwn, prevent, hPolicy, cancelBoth,
            cancelResting, cancelIncoming]
        | decrementBoth =>
          simp [step, after, hUsed, hCrosses, hOwn, prevent, hPolicy, decrementBoth]

theorem run_after (fuel : Nat) (m : Matching) :
    (m.after fills withdrawals).run instrument fuel =
      (m.run instrument fuel).after fills withdrawals := by
  induction fuel generalizing m with
  | zero => rfl
  | succ fuel ih =>
    rw [run, run, step_after]
    cases m.step instrument with
    | none => rfl
    | some next => exact ih next

theorem finish_after (m : Matching) :
    (m.after fills withdrawals).finish instrument =
      (m.finish instrument).after fills withdrawals :=
  run_after fills withdrawals _ m

end Matching

namespace Book

variable (book : Book) (fills : List Fill) (withdrawals : List Withdrawal)

theorem arrival_after (order : Order) :
    book.arrival order fills withdrawals = (book.arrival order [] []).after fills withdrawals := by
  simp [arrival, Matching.after]

theorem insert_after (fillable : Bool) (order : Order) :
    book.insert fillable order fills withdrawals =
      (book.insert fillable order [] []).after fills withdrawals := by
  unfold insert
  rw [arrival_after, Matching.finish_after]
  generalize (book.arrival order [] []).finish book.instrument = m
  split
  · simp [Outcome.after]
  split
  · simp [Outcome.after]
  split
  · simp [Outcome.after]
  · dsimp only [Matching.after]
    split <;> rfl

theorem replace_after (id : OrderId) (newPrice : Int) (newQuantity newSequence : Nat) (now : Int) :
    book.replace id newPrice newQuantity newSequence now fills withdrawals =
      (book.replace id newPrice newQuantity newSequence now [] []).after fills withdrawals := by
  unfold replace
  cases book.find id with
  | none => simp [Outcome.after]
  | some previous =>
    dsimp only
    rw [insert_after]
    split
    · simp [Outcome.after]
    split
    · simp [Outcome.after]
    split
    · simp [Outcome.after]
    split
    · simp [Outcome.after]
    · rfl

end Book
end PriceTime
end ExchangeCore
