import ExchangeCore.Core.EngineBooks
import ExchangeCore.PriceTime.Trail

/-!
# Which trades never print

Two promises about whole runs of the engine.  Unless an instrument allows it, no
fill has one and the same account on both sides; and an order marked post-only
never takes, neither when it arrives nor when an amendment sends it back into the
book with its flag and its account carried over.

Both are about the prints of one command, so they are proved of every command an
engine in order can meet, and hold in particular of every command of a run.
-/

namespace ExchangeCore

open PriceTime

namespace MatchingEngine

variable {J : Type}

/-- The fill is one of an instrument of this engine, and unless that instrument
allows self-trades its two accounts differ. -/
def Separate (engine : MatchingEngine J) (fill : Fill) : Prop :=
  ∃ book, engine.bookFor fill.instrument = some book ∧
    (book.instrument.selfTradePolicy ≠ .allow → fill.aggressorAccount.valid = true →
      fill.aggressorAccount ≠ fill.restingAccount)

/-- What a command prints: no self-trade, and no post-only order as the aggressor,
be it the new order or the resting order that is amended. -/
def Clean [JournalSink J] (engine : MatchingEngine J) : Event → Prop
  | .submit command now =>
    let reply := engine.submit command now
    (∀ fill ∈ reply.1.fills, engine.Separate fill ∧ fill.aggressorOrder = command.id ∧
        command.postOnly = false) ∧
      (command.postOnly = true → reply.2.result.reject = .none →
        reply.1.fills = [] ∧ reply.1.withdrawals = [])
  | .cancel command now => (engine.cancel command now).1.fills = []
  | .replace command now =>
    ∀ fill ∈ (engine.replace command now).1.fills, engine.Separate fill ∧
      fill.aggressorOrder = command.id ∧
        ∀ order, engine.Rests command.instrument order → order.id = command.id →
          order.postOnly = false
  | _ => True

section Commands

variable {engine : MatchingEngine J}

/-- What a match prints in a book filed under its own instrument. -/
theorem separate_of_between {id : InstrumentId} {target : OrderBook}
    (hTarget : engine.bookFor id = some target) (hId : target.instrument.id = id) {order : Order}
    {queue : List Order} {fill : Fill}
    (hBetween : Fill.Between target.instrument order queue fill) : engine.Separate fill := by
  refine ⟨target, by rw [hBetween.instrument_eq, hId, hTarget], fun hPolicy hAccount hSame => ?_⟩
  have hFree := hBetween.free
  rw [← hBetween.account] at hFree
  simp [Instrument.prevents, hPolicy, hAccount, ← hSame] at hFree

variable [JournalSink J] (hHoused : engine.Housed)
include hHoused

theorem Housed.clean_submit (command : NewOrder) (now : Int) :
    engine.Clean (.submit command now) := by
  show (∀ fill ∈ (engine.submit command now).1.fills, _) ∧ _
  rcases submit_booked hHoused command now with ⟨-, hFills, hRejected, -⟩ |
    ⟨target, outcome, hTarget, -, -, hOutcome, -, hBooked⟩
  · rw [hFills]
    exact ⟨fun fill hFill => by simp at hFill, fun _ hAccepted => absurd hAccepted hRejected⟩
  have hId := (hHoused _ _ hTarget).2
  have hPostOnly : command.postOnly = true → outcome.fills = [] ∧ outcome.withdrawals = [] :=
    fun hPost => Book.insert_postOnly hOutcome hPost
  refine ⟨fun fill hFill => ?_, fun hPost _ => ?_⟩
  · rw [hBooked.fills] at hFill
    have hBetween := (Book.insert_trail hOutcome).printed fill hFill
    refine ⟨separate_of_between hTarget hId hBetween, hBetween.aggressor, ?_⟩
    rw [Bool.eq_false_iff]
    intro hPost
    rw [(hPostOnly hPost).1] at hFill
    cases hFill
  · show (engine.submit command now).1.fills = [] ∧ (engine.submit command now).1.withdrawals = []
    rw [hBooked.fills, hBooked.withdrawals]
    exact hPostOnly hPost

theorem Housed.clean_replace (command : ReplaceOrder) (now : Int) :
    engine.Clean (.replace command now) := by
  intro fill hFill
  rcases replace_booked hHoused command now with ⟨-, hFills, -⟩ |
    ⟨target, previous, outcome, hTarget, hPrevious, -, -, hOutcome, -, hBooked⟩
  · rw [hFills] at hFill
    cases hFill
  obtain ⟨hKept, hId⟩ := hHoused _ _ hTarget
  have hFind := hKept.find_abs hPrevious
  rw [hBooked.fills] at hFill
  have hBetween := (hKept.valid.replace_trail hFind hOutcome).printed fill hFill
  refine ⟨separate_of_between hTarget hId hBetween, ?_, fun order hRests hSame => ?_⟩
  · exact hBetween.aggressor.trans ((Book.find_eq_some_iff hKept.valid.ids).mp hFind).2
  · -- The order with this id is the one that is amended.
    obtain rfl := Book.eq_of_find hKept.valid.ids hFind
      ((rests_iff_of_bookFor hTarget order).mp hRests) hSame
    rw [Bool.eq_false_iff]
    intro hPost
    rw [Book.fills_replace_postOnly hFind hPost hOutcome] at hFill
    cases hFill

theorem Housed.clean (event : Event) : engine.Clean event := by
  cases event with
  | submit command now => exact hHoused.clean_submit command now
  | cancel command now => exact hHoused.fills_cancel command now
  | replace command now => exact hHoused.clean_replace command now
  | _ => trivial

end Commands

/-- In every run of the engine, whatever its journal, risk engine and kill switch,
no command prints a self-trade on an instrument that does not allow it, no fill
has a post-only order as its aggressor, and an accepted post-only submission
prints and withdraws nothing. -/
theorem run_prints_clean [JournalSink J] (journal : Option J) (risk : Option RiskEngine)
    (kill : Option KillSwitch) (events : List Event) (hTicked : ∀ event ∈ events, event.Ticked) :
    Machine.Each apply Clean (start journal risk kill) events :=
  ((housed_start journal risk kill).always hTicked).each.imp fun _ event hBoth =>
    hBoth.1.clean event

/-- Account 1 meets its own order, is amended onto account 2's offer, and sends a
post-only order that would cross. -/
def selfTradeEvents : List Event :=
  [.addInstrument (sampleListing .decrementBoth) 0, .submit (sampleNewOrder 1 1 .buy 1 5 false) 0,
    .submit (sampleNewOrder 2 1 .sell 1 3 false) 0,
    .submit (sampleNewOrder 3 2 .sell 2 4 false) 0,
    .replace (sampleReplace 1 1 2 4) 0,
    .submit (sampleNewOrder 4 1 .buy 2 1 true) 0]

theorem run_prints_clean_sample :
    ((start (none : Option Empty) none none).run selfTradeEvents).fills = [] ∧
      ((start (none : Option Empty) none none).run (selfTradeEvents.take 5)).fills.length = 1 ∧
      Machine.Each apply Clean (start (none : Option Empty) none none) selfTradeEvents :=
  ⟨by decide +kernel, by decide +kernel,
    run_prints_clean none none none selfTradeEvents (by decide)⟩

end MatchingEngine
end ExchangeCore
