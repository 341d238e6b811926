import ExchangeCore.Core.EngineBooks
import ExchangeCore.PriceTime.Foresight

/-!
# What a command is about to do

The engine's answer to a command is decided by the state the command meets: the
halts, the limits, the journal and the book of its instrument.  This module says
how, command by command.  `Enters` and `Amends` name what a command finds in its
book if nothing stops it on the way there; acceptance, trading and the loss of an
amended order are conditions on that book.

Conditions on whole runs are stated with these predicates, so that they speak of
the state before each command and not of what the command returned.
-/

namespace ExchangeCore

open PriceTime

namespace MatchingEngine

variable {J : Type} [JournalSink J]

section Predicates

variable (engine : MatchingEngine J)

/-- The new order is accepted. -/
def Accepts (command : NewOrder) (now : Int) : Prop :=
  engine.Enters command now fun target order => target.abs.Accepts (target.verdict order) order

/-- The new order is accepted and finds something to trade with. -/
def Trades (command : NewOrder) (now : Int) : Prop :=
  engine.Enters command now fun target order =>
    target.abs.Accepts (target.verdict order) order ∧ 0 < target.abs.fillableQuantity order

/-- The amendment is accepted. -/
def AcceptsAmended (command : ReplaceOrder) (now : Int) : Prop :=
  engine.Amends command now fun target previous =>
    target.abs.AllowsTerms command.newPrice command.newQuantity ∧
      ¬ target.abs.Forfeits previous command.newPrice command.newQuantity

/-- The amended order comes back and finds something to trade with. -/
def TradesAmended (command : ReplaceOrder) (now : Int) : Prop :=
  engine.Amends command now fun target previous =>
    target.abs.TradesAmended previous command.newPrice command.newQuantity

/-- The amended order is taken off its book and refused on its way back. -/
def Forfeits (command : ReplaceOrder) (now : Int) : Prop :=
  engine.Amends command now fun target previous =>
    target.abs.Forfeits previous command.newPrice command.newQuantity

instance (command : NewOrder) (now : Int) (holds : OrderBook → Order → Prop)
    [∀ book order, Decidable (holds book order)] : Decidable (engine.Enters command now holds) := by
  unfold Enters
  infer_instance

instance (command : ReplaceOrder) (now : Int) (holds : OrderBook → Order → Prop)
    [∀ book order, Decidable (holds book order)] : Decidable (engine.Amends command now holds) := by
  unfold Amends
  infer_instance

instance (command : NewOrder) (now : Int) : Decidable (engine.Accepts command now) := by
  unfold Accepts
  infer_instance

instance (command : NewOrder) (now : Int) : Decidable (engine.Trades command now) := by
  unfold Trades
  infer_instance

instance (command : ReplaceOrder) (now : Int) : Decidable (engine.AcceptsAmended command now) := by
  unfold AcceptsAmended
  infer_instance

instance (command : ReplaceOrder) (now : Int) : Decidable (engine.TradesAmended command now) := by
  unfold TradesAmended
  infer_instance

instance (command : ReplaceOrder) (now : Int) : Decidable (engine.Forfeits command now) := by
  unfold Forfeits
  infer_instance

end Predicates

variable {engine : MatchingEngine J}

/-! ## Submitting -/

theorem accepts_iff (hHoused : engine.Housed) (command : NewOrder) (now : Int) :
    engine.Accepts command now ↔ (engine.submit command now).2.result.reject = .none := by
  rcases submit_booked hHoused command now with ⟨-, -, hReject, hNot⟩ |
    ⟨target, outcome, -, hEnters, -, rfl, hResult, -⟩
  · exact iff_of_false (hNot _) hReject
  · rw [hResult, Book.reject_insert_iff]
    exact hEnters _

theorem trades_iff (hHoused : engine.Housed) (command : NewOrder) (now : Int) :
    engine.Trades command now ↔ (engine.submit command now).1.fills ≠ [] := by
  rcases submit_booked hHoused command now with ⟨-, hFills, -, hNot⟩ |
    ⟨target, outcome, hTarget, hEnters, -, rfl, -, hBooked⟩
  · exact iff_of_false (hNot _) (not_not.mpr hFills)
  have hValid := (hHoused _ _ hTarget).1.valid
  rw [hBooked.fills]
  refine (hEnters _).trans ?_
  by_cases hAccepts : target.abs.Accepts
      (target.verdict (Order.ofCommand command (engine.sequence + 1) now))
      (Order.ofCommand command (engine.sequence + 1) now)
  · rw [Ne, hValid.fills_insert_iff hAccepts, Nat.pos_iff_ne_zero]
    exact and_iff_right hAccepts
  · refine iff_of_false (fun h => hAccepts h.1) (not_not.mpr ?_)
    exact (Book.insert_of_refused rfl fun h => hAccepts (Book.reject_insert_iff.mp h)).2

/-! ## Amending -/

variable (hHoused : engine.Housed)
include hHoused

section

variable (command : ReplaceOrder) (now : Int)

theorem acceptsAmended_iff :
    engine.AcceptsAmended command now ↔
      (engine.replace command now).2.result.reject = .none := by
  rcases replace_booked hHoused command now with ⟨-, -, hReject, -, hNot⟩ |
    ⟨target, previous, outcome, hTarget, hPrevious, -, hAmends, hOutcome, hResult, -⟩
  · exact iff_of_false (hNot _) hReject
  · obtain ⟨hKept, -⟩ := hHoused _ _ hTarget
    rw [hResult, (hKept.valid.replace_foreseen (hKept.find_abs hPrevious) hOutcome).2.1]
    exact hAmends _

theorem forfeits_iff :
    engine.Forfeits command now ↔
      (engine.replace command now).2.result.reject = .postOnlyWouldCross := by
  rcases replace_booked hHoused command now with ⟨-, -, -, hReject, hNot⟩ |
    ⟨target, previous, outcome, hTarget, hPrevious, -, hAmends, hOutcome, hResult, -⟩
  · exact iff_of_false (hNot _) hReject
  · obtain ⟨hKept, -⟩ := hHoused _ _ hTarget
    rw [hResult, (hKept.valid.replace_foreseen (hKept.find_abs hPrevious) hOutcome).1]
    exact hAmends _

theorem tradesAmended_iff :
    engine.TradesAmended command now ↔ (engine.replace command now).1.fills ≠ [] := by
  rcases replace_booked hHoused command now with ⟨-, hFills, -, -, hNot⟩ |
    ⟨target, previous, outcome, hTarget, hPrevious, -, hAmends, hOutcome, -, hBooked⟩
  · exact iff_of_false (hNot _) (not_not.mpr hFills)
  · obtain ⟨hKept, -⟩ := hHoused _ _ hTarget
    rw [hBooked.fills, Ne,
      (hKept.valid.replace_foreseen (hKept.find_abs hPrevious) hOutcome).2.2, not_not]
    exact hAmends _

end

/-! ## Where resting orders come from -/

/-- The event takes this order to its book: a new order that risk has passed, or an
amended one that goes to the tail of its queue. -/
def Brings (engine : MatchingEngine J) (event : Event) (order : Order) : Prop :=
  match event with
  | .submit command now => order = Order.ofCommand command (engine.sequence + 1) now ∧
      ∀ risk, engine.risk = some risk → (risk.check command now).2 = .none
  | .replace command now => engine.Amends command now fun target previous =>
      target.abs.Requeues previous command.newPrice command.newQuantity ∧
        order = Book.amended previous command.newPrice command.newQuantity
          (engine.sequence + 1) now
  | _ => False

omit [JournalSink J] hHoused in
theorem Booked.origin {engine' : MatchingEngine J} {id other : InstrumentId}
    {target : OrderBook} {after : Book} {fills : List Fill} {withdrawals : List Withdrawal}
    {x : Order} {brought : Prop} (hBooked : Booked engine engine' id after fills withdrawals)
    (hTarget : engine.bookFor id = some target) (hRests : engine'.Rests other x)
    (hLeft : x ∈ after.orders → (∃ o ∈ target.abs.orders, x.LeftOf o) ∨ brought) :
    (∃ o, engine.Rests other o ∧ x.LeftOf o) ∨ brought := by
  have hWhere := (hBooked.rests other x).mp hRests
  split at hWhere
  · next hHere =>
      refine (hLeft hWhere).imp_left ?_
      rintro ⟨o, ho, hLeft⟩
      exact ⟨o, hHere ▸ (rests_iff_of_bookFor hTarget o).mpr ho, hLeft⟩
  · exact Or.inl ⟨x, hWhere, .refl x⟩

/-- What rests after an event is left of an order that rested before or of the one
the event brings. -/
theorem Housed.origin {event : Event} (hTicked : event.Ticked) {id : InstrumentId} {x : Order}
    (hRests : (engine.apply event).Rests id x) :
    (∃ o, engine.Rests id o ∧ x.LeftOf o) ∨
      ∃ order, engine.Brings event order ∧ x.LeftOf order := by
  cases event with
  | submit command now =>
    rcases submit_booked hHoused command now with ⟨hBooks, -⟩ |
      ⟨target, outcome, hTarget, -, hCheck, hOutcome, -, hBooked⟩
    · exact Or.inl ⟨x, (rests_congr (hBooks id) x).mp hRests, .refl x⟩
    refine hBooked.origin hTarget hRests fun hMem => ?_
    exact ((Book.insert_trail hOutcome).left x hMem).imp_right
      fun hNew => ⟨_, ⟨rfl, hCheck⟩, hNew.1⟩
  | cancel command now =>
    rcases cancel_booked hHoused command now with ⟨hBooks, -⟩ |
      ⟨target, resting, hTarget, -, -, -, hBooked⟩
    · exact Or.inl ⟨x, (rests_congr (hBooks id) x).mp hRests, .refl x⟩
    exact hBooked.origin hTarget hRests fun hMem =>
      Or.inl ⟨x, Book.mem_orders_remove hMem, .refl x⟩
  | replace command now =>
    rcases replace_booked hHoused command now with ⟨hBooks, -⟩ |
      ⟨target, previous, outcome, hTarget, hPrevious, -, hAmends, hOutcome, -, hBooked⟩
    · exact Or.inl ⟨x, (rests_congr (hBooks id) x).mp hRests, .refl x⟩
    obtain ⟨hKept, -⟩ := hHoused _ _ hTarget
    have hFind := hKept.find_abs hPrevious
    refine hBooked.origin hTarget hRests fun hMem => ?_
    refine ((hKept.valid.replace_trail hFind hOutcome).left x hMem).imp_right ?_
    rintro ⟨hLeft, -, hRested, hMoved⟩
    exact ⟨_, (hAmends _).mpr ⟨Book.requeues_of_moved hFind hOutcome hRested hMoved, rfl⟩, hLeft⟩
  | _ => exact Or.inl ⟨x, (rests_apply engine hTicked not_false id x).mp hRests, .refl x⟩

end MatchingEngine
end ExchangeCore
