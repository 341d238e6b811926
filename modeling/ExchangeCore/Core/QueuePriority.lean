import ExchangeCore.Core.BookRun
import ExchangeCore.Lib.Machine
import ExchangeCore.PriceTime.Priority

/-!
# Amendments and queue priority

Three facts about every reachable book.  Of two orders that rest side by side
through a stretch of a run, the one ahead stays ahead unless it is itself queued
again by an amendment; an order that an amendment enlarged or moved stands behind
everyone at its price; and an amendment that retained priority changed the size
and remainder of its order and nothing else.
-/

namespace ExchangeCore

open PriceTime

namespace OrderBook

section

variable (book : OrderBook)

/-- The book after one command. -/
def step (command : BookCommand) : OrderBook :=
  (book.apply [] [] command).book

/-- An order with this id rests on a side at a price. -/
def RestsAt (side : Side) (price : Int) (id : OrderId) : Prop :=
  ∃ order ∈ book.sideOrders side, order.id = id ∧ order.price = price

instance (side : Side) (price : Int) (id : OrderId) : Decidable (book.RestsAt side price id) :=
  inferInstanceAs (Decidable (∃ order ∈ book.sideOrders side, order.id = id ∧ order.price = price))

/-- The command is an accepted amendment of the order, and not a size reduction at
the same price. -/
def Requeues (id : OrderId) : BookCommand → Prop
  | .replace target newPrice newQuantity newSequence now =>
    target = id ∧
      (book.replace target newPrice newQuantity newSequence now [] []).result.reject = .none ∧
      ∀ previous ∈ book.find id, ¬ (newPrice = previous.price ∧ newQuantity < previous.quantity)
  | _ => False

instance (id : OrderId) (command : BookCommand) : Decidable (book.Requeues id command) := by
  cases command <;> unfold Requeues <;> infer_instance

/-- Through any stretch in which two orders rest on one side at one price and the
one ahead is not queued again, it stays ahead. -/
def KeepsPlaces : Prop :=
  ∀ (side : Side) (price : Int) (y x : OrderId) (stretch : List BookCommand),
    Ahead y x (book.sideOrders side) →
    Machine.Always step (fun book => book.RestsAt side price y ∧ book.RestsAt side price x) book
      stretch →
    Machine.Each step (fun book command => ¬ book.Requeues y command) book stretch →
    Machine.Always step (fun book => Ahead y x (book.sideOrders side)) book stretch

/-- An amended order that has more remaining or another price, or that rests
without having retained its priority, has everyone at its price ahead of it. -/
def QueuesBehind : Prop :=
  ∀ (id : OrderId) (newPrice : Int) (newQuantity newSequence : Nat) (now : Int)
    (previous : Order), book.find id = some previous →
    let outcome := book.replace id newPrice newQuantity newSequence now [] []
    ∀ side, ∀ amended ∈ outcome.book.sideOrders side, amended.id = id →
      (previous.remaining < amended.remaining ∨ previous.price ≠ amended.price ∨
        outcome.result.rested = true ∧ outcome.result.priorityRetained = false) →
      ∀ other ∈ outcome.book.sideOrders side, other.price = amended.price → other.id ≠ id →
        Ahead other.id id (outcome.book.sideOrders side)

/-- An amendment that retained priority changed the size and the remainder of its
order; every other order stands where it stood, and nothing printed. -/
def ShrinksAlone : Prop :=
  ∀ (id : OrderId) (newPrice : Int) (newQuantity newSequence : Nat) (now : Int),
    let outcome := book.replace id newPrice newQuantity newSequence now [] []
    outcome.result.priorityRetained = true →
      (∀ side, outcome.book.sideOrders side = (book.sideOrders side).map fun order =>
        if order.id = id then
          { order with quantity := newQuantity, remaining := newQuantity - order.filled }
        else order) ∧
      outcome.book.nextTradeId = book.nextTradeId ∧ outcome.fills = [] ∧ outcome.withdrawals = []

end

section Kept

variable {book : OrderBook}

/-- One command, as long as both orders rest at one price afterwards. -/
theorem Kept.ahead_step (hKept : book.Kept) {side : Side} {price : Int} {y x : OrderId}
    {command : BookCommand} (hAhead : Ahead y x (book.sideOrders side))
    (hRests : (book.step command).RestsAt side price y ∧
      (book.step command).RestsAt side price x)
    (hStays : ¬ book.Requeues y command) : Ahead y x ((book.step command).sideOrders side) := by
  have hRefines := hKept.refines [] [] command
  have hIds := hKept.valid.nodup_queue side
  simp only [RestsAt, step, ← queue_abs] at hAhead hRests ⊢
  rw [hRefines.book] at hRests ⊢
  cases command with
  | submit order =>
    obtain ⟨hy, hx⟩ := hRests
    exact Book.insert_ahead rfl hIds hAhead (Book.RestsAt.mem hy) (Book.RestsAt.mem hx)
  | cancel id =>
    obtain ⟨hy, hx⟩ := hRests
    refine hAhead.shrink hIds ?_ (Book.RestsAt.mem hy) (Book.RestsAt.mem hx)
    exact Book.ids_cancel book.abs id side
  | replace id newPrice newQuantity newSequence now =>
    refine hKept.valid.replace_ahead rfl hAhead hRests.1 hRests.2 ?_
    rintro rfl hAccepted previous hFind
    by_contra hMoves
    refine hStays ⟨rfl, ?_, fun other hOther => ?_⟩
    · rw [(hKept.sound.replace hKept.valid id newPrice newQuantity newSequence now [] []).result]
      exact hAccepted
    · rw [hKept.sound.find_eq, hFind] at hOther
      rw [← Option.some.inj hOther]
      exact hMoves

theorem Kept.keepsPlaces (hKept : book.Kept) : book.KeepsPlaces := by
  intro side price y x stretch hAhead hRests hStays
  have hBooks : Machine.Always step Kept book stretch :=
    (Machine.each_of_forall fun _ _ => trivial).always hKept fun _ command hKept _ =>
      hKept.apply [] [] command
  refine ((hBooks.each.and hRests.each).and hStays).always hAhead ?_
  intro book command hAhead hEvent
  obtain ⟨⟨⟨hBefore, -⟩, -, hAfter⟩, hStays⟩ := hEvent
  exact hBefore.ahead_step hAhead hAfter hStays

theorem Kept.queuesBehind (hKept : book.Kept) : book.QueuesBehind := by
  intro id newPrice newQuantity newSequence now previous hFind outcome side
  have hRefines := hKept.sound.replace hKept.valid id newPrice newQuantity newSequence now [] []
  rw [← queue_abs, hRefines.book, hRefines.result]
  intro amended hMem hId hMoves other hOther hPrice hNe
  exact hKept.valid.replace_behind rfl (hKept.sound.find_eq id ▸ hFind) hMem hId hMoves hOther
    hPrice hNe

theorem Kept.shrinksAlone (hKept : book.Kept) : book.ShrinksAlone := by
  intro id newPrice newQuantity newSequence now outcome hRetained
  have hRefines := hKept.sound.replace hKept.valid id newPrice newQuantity newSequence now [] []
  rw [hRefines.result] at hRetained
  obtain ⟨hQueues, hTrades, hFills, hWithdrawals⟩ := hKept.valid.replace_retained rfl hRetained
  refine ⟨fun side => ?_, ?_, hRefines.fills.trans hFills, hRefines.withdrawals.trans hWithdrawals⟩
  · rw [← queue_abs, ← queue_abs, hRefines.book]
    exact hQueues side
  · have hBook := congrArg Book.nextTradeId hRefines.book
    exact hBook.trans hTrades

end Kept

/-- In every reachable book amendments never jump the queue: places are kept
through any stretch of a run, an enlarged or moved order goes behind everyone at
its price, and a reduction in place touches nobody else. -/
theorem amendments_keep_queue (instrument : Instrument) (hTick : 0 < instrument.tickSize)
    (initialCapacity : Nat) (commands : List BookCommand) :
    ((create instrument initialCapacity).run commands).KeepsPlaces ∧
      ((create instrument initialCapacity).run commands).QueuesBehind ∧
      ((create instrument initialCapacity).run commands).ShrinksAlone := by
  have hKept := (kept_create hTick initialCapacity).run commands
  exact ⟨hKept.keepsPlaces, hKept.queuesBehind, hKept.shrinksAlone⟩

/-- Three bids at one price. -/
def threeBids : List BookCommand :=
  [.submit (sampleOrder 1 1 .buy 2 5 1), .submit (sampleOrder 2 2 .buy 2 4 2),
    .submit (sampleOrder 3 3 .buy 2 6 3)]

/-- The first is taken in part and shrunk in place, the second is enlarged, and the
third cancelled. -/
def bidStretch : List BookCommand :=
  [.submit (sampleOrder 4 4 .sell 2 2 4), .replace ⟨1⟩ 2 4 5 0, .replace ⟨2⟩ 2 9 6 0, .cancel ⟨3⟩]

theorem amendments_keep_queue_sample :
    Machine.Always step (fun book => Ahead ⟨1⟩ ⟨2⟩ (book.sideOrders .buy))
      ((create sampleInstrument 1).run threeBids) bidStretch :=
  (amendments_keep_queue sampleInstrument (by decide) 1 threeBids).1 .buy 2 ⟨1⟩ ⟨2⟩ bidStretch
    (by decide +kernel) (by decide +kernel) (by decide +kernel)

end OrderBook
end ExchangeCore
