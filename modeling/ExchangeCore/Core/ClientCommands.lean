import ExchangeCore.Core.BookRenumbering
import ExchangeCore.Core.EngineBooks
import ExchangeCore.Journal.AppendLog

/-!
# An engine that only its books decide for

Clients send three kinds of command.  On an engine with no risk engine and no kill
switch, and with no journal or one that takes every record, the book a command is
addressed to decides everything: whether the command is turned away unnumbered,
and otherwise what it does under the next number (`obey_cases`).

Two such engines whose books for a command differ in sequence numbers only answer
it alike up to the same renumbering (`obey_renumbered`).
-/

namespace ExchangeCore

open PriceTime

/-- A command of a client. -/
inductive ClientCommand
  | submit (command : NewOrder)
  | cancel (command : CancelOrder)
  | replace (command : ReplaceOrder)
  deriving DecidableEq

/-- What the engine answers a client. -/
inductive ClientReply
  | submitted (outcome : Sequenced SubmitResult)
  | cancelled (outcome : Sequenced CancelResult)
  | replaced (outcome : Sequenced ReplaceResult)
  deriving DecidableEq

namespace ClientReply

/-- The book's reply under the number of its command. -/
def ofBook (sequence : Nat) : BookReply → ClientReply
  | .submitted result => .submitted ⟨result, sequence⟩
  | .cancelled result => .cancelled ⟨result, sequence⟩
  | .replaced result => .replaced ⟨result, sequence⟩

def renumber (f : Nat → Nat) : ClientReply → ClientReply
  | .submitted outcome => .submitted ⟨outcome.result, f outcome.sequence⟩
  | .cancelled outcome => .cancelled ⟨outcome.result.renumber f, f outcome.sequence⟩
  | .replaced outcome => .replaced ⟨outcome.result.renumber f, f outcome.sequence⟩

theorem renumber_ofBook (f : Nat → Nat) (sequence : Nat) (reply : BookReply) :
    (ofBook sequence reply).renumber f = ofBook (f sequence) (reply.renumber f) := by
  cases reply <;> rfl

end ClientReply

namespace ClientCommand

def instrument : ClientCommand → InstrumentId
  | .submit command => command.instrument
  | .cancel command => command.instrument
  | .replace command => command.instrument

/-- What the book is asked to do, under the engine's number and clock reading. -/
def stamped (sequence : Nat) (now : Int) : ClientCommand → BookCommand
  | .submit command => .submit (Order.ofCommand command sequence now)
  | .cancel command => .cancel command.id
  | .replace command => .replace command.id command.newPrice command.newQuantity sequence now

theorem stamped_renumber (f : Nat → Nat) (sequence : Nat) (now : Int) (command : ClientCommand) :
    (command.stamped sequence now).renumber f = command.stamped (f sequence) now := by
  cases command <;> rfl

/-- Why a command about a resting order is turned away: an account reaches its own
orders only. -/
def disowned (id : OrderId) (account : AccountId) : Option OrderBook → Option RejectReason
  | none => some .unknownInstrument
  | some target =>
    if (target.find id).any fun resting => decide (resting.account = account) then none
    else some .unknownOrder

/-- Why the command is turned away before it is numbered, by the book it is addressed
to. -/
def refusal (target : Option OrderBook) : ClientCommand → Option RejectReason
  | .submit command =>
    if target.isNone then some .unknownInstrument
    else if command.account.valid then none
    else some .unknownOrder
  | .cancel command => disowned command.id command.account target
  | .replace command => disowned command.id command.account target

/-- The answer to a command that is turned away. -/
def rejected (reason : RejectReason) : ClientCommand → ClientReply
  | .submit _ => .submitted { result := { reject := reason } }
  | .cancel _ => .cancelled { result := { reject := reason } }
  | .replace _ => .replaced { result := { reject := reason } }

theorem rejected_renumber {f : Nat → Nat} (hZero : f 0 = 0) (reason : RejectReason)
    (command : ClientCommand) :
    (command.rejected reason).renumber f = command.rejected reason := by
  cases command with
  | submit => simp only [rejected, ClientReply.renumber, hZero]
  | cancel =>
    simp only [rejected, ClientReply.renumber, CancelResult.renumber, hZero,
      Order.renumber_default hZero]
  | replace =>
    simp only [rejected, ClientReply.renumber, ReplaceResult.renumber, hZero,
      Order.renumber_default hZero]

variable {account : AccountId} {target : Option OrderBook}

/-- The two reasons. -/
theorem disowned_cases {id : OrderId}
    {reason : RejectReason} (hReason : disowned id account target = some reason) :
    (target = none ∧ reason = .unknownInstrument) ∨
      ∃ book, target = some book ∧ reason = .unknownOrder ∧
        ∀ resting, book.find id = some resting → resting.account ≠ account := by
  cases target with
  | none => exact Or.inl ⟨rfl, (Option.some.inj hReason).symm⟩
  | some book =>
    unfold disowned at hReason
    dsimp only at hReason
    split at hReason
    · contradiction
    next hNone =>
    refine Or.inr ⟨book, rfl, (Option.some.inj hReason).symm, fun resting hFind hOwner => ?_⟩
    rw [hFind, Option.any_some, hOwner] at hNone
    exact hNone (decide_eq_true rfl)

/-- Otherwise the account has the order in the book. -/
theorem exists_of_disowned {id : OrderId} (hOwned : disowned id account target = none) :
    ∃ book resting, target = some book ∧ book.find id = some resting ∧
      resting.account = account := by
  cases target with
  | none => contradiction
  | some book =>
    unfold disowned at hOwned
    dsimp only at hOwned
    split at hOwned
    · next hAny =>
        obtain ⟨resting, hResting, hOwner⟩ := (Option.any_eq_true ..).mp hAny
        exact ⟨book, resting, rfl, hResting, of_decide_eq_true hOwner⟩
    · contradiction

section Renumbered

variable {book book' : OrderBook} {f : Nat → Nat}

theorem disowned_renumber (hSound : book.Sound) (hSound' : book'.Sound)
    (hAbs : book'.abs = book.abs.renumber f) (id : OrderId) (account : AccountId) :
    disowned id account (some book') = disowned id account (some book) := by
  have hOwner : ((book'.find id).any fun resting => decide (resting.account = account)) =
      (book.find id).any fun resting => decide (resting.account = account) := by
    rw [hSound'.find_eq, hAbs, Book.find_renumber, ← hSound.find_eq, Option.any_map]
    rfl
  rw [disowned, disowned, hOwner]

/-- Numbers are no reason to turn a command away. -/
theorem refusal_renumber (hSound : book.Sound) (hSound' : book'.Sound)
    (hAbs : book'.abs = book.abs.renumber f) (command : ClientCommand) :
    command.refusal (some book') = command.refusal (some book) := by
  cases command with
  | submit command => rfl
  | cancel command => exact disowned_renumber hSound hSound' hAbs command.id command.account
  | replace command => exact disowned_renumber hSound hSound' hAbs command.id command.account

end Renumbered

end ClientCommand

/-- The journal will take every record it is offered, whatever it is offered before. -/
def JournalSink.Willing {J : Type} [JournalSink J] (journal : J) : Prop :=
  ∀ (entries : List (Record × Int)) (record : Record) (now : Int),
    (append (entries.foldl (fun journal entry => (append journal entry.1 entry.2).1) journal)
      record now).2 = true

theorem JournalSink.Willing.append {J : Type} [JournalSink J] {journal : J}
    (hWilling : Willing journal) (record : Record) (now : Int) :
    (JournalSink.append journal record now).2 = true ∧
      Willing (JournalSink.append journal record now).1 :=
  ⟨hWilling [] record now, fun entries => hWilling ((record, now) :: entries)⟩

namespace MatchingEngine

variable {J : Type} [JournalSink J] {engine : MatchingEngine J}

/-- Neither risk nor a halt can turn a command away, and the journal takes it. -/
structure Unguarded (engine : MatchingEngine J) : Prop where
  journal : ∀ journal ∈ engine.journal, JournalSink.Willing journal
  risk : engine.risk = none
  kill : engine.kill = none

variable {engine' : MatchingEngine J} {command : NewOrder} {target : OrderBook}
  {reason : RejectReason}

theorem Unguarded.frame (hUnguarded : engine.Unguarded)
    (hFrame : Frame engine engine') : engine'.Unguarded :=
  ⟨by rw [hFrame.journal]; exact hUnguarded.journal, hFrame.risk hUnguarded.risk,
    hFrame.kill hUnguarded.kill⟩

/-- The engine as it reaches the book with a command that the journal took. -/
def journaled (engine : MatchingEngine J) (payload : Record → Record) (now : Int) :
    MatchingEngine J :=
  { engine.clearBuffers with
    journal := engine.journal.map fun journal =>
      (JournalSink.append journal (engine.recordOf payload now) now).1
    sequence := engine.sequence + 1
    scratchRecord := engine.recordOf payload now }

theorem Unguarded.journaled (hUnguarded : engine.Unguarded) (payload : Record → Record)
    (now : Int) : (engine.journaled payload now).Unguarded := by
  refine ⟨fun journal hJournal => ?_, hUnguarded.risk, hUnguarded.kill⟩
  obtain ⟨before, hBefore, rfl⟩ := Option.map_eq_some_iff.mp (Option.mem_def.mp hJournal)
  exact ((hUnguarded.journal before hBefore).append _ now).2

theorem journalCommand_of_taken {record : Record} {now : Int}
    (hTaken : (engine.append record now).2 = true) :
    engine.journalCommand record now = ((engine.append record now).1, true) := by
  unfold journalCommand
  dsimp only
  rw [if_pos hTaken]

section

variable (hUnguarded : engine.Unguarded)
include hUnguarded

theorem Unguarded.sequenceCommand (payload : Record → Record) (now : Int) :
    engine.clearBuffers.sequenceCommand payload now = (engine.journaled payload now, true) := by
  have hTaken : (engine.journal.map fun journal =>
      (JournalSink.append journal (engine.recordOf payload now) now).2).getD true = true := by
    cases hJournal : engine.journal with
    | none => rfl
    | some journal => exact ((hUnguarded.journal journal hJournal).append _ now).1
  refine (journalCommand_of_taken ?_).trans ?_
  · rw [append_snd]
    exact hTaken
  · rw [append_fst]
    rfl

theorem Unguarded.submit (hTarget : engine.bookFor command.instrument = some target)
    (hAccount : command.account.valid = true) (now : Int) :
    engine.submit command now =
      (engine.journaled (newOrderPayload command) now).place target command now := by
  have hSequence := hUnguarded.sequenceCommand (newOrderPayload command) now
  have hRisk : engine.clearBuffers.checkRisk command now = (engine.clearBuffers, .none) := by
    simp only [checkRisk, show engine.clearBuffers.risk = none from hUnguarded.risk]
  have hKill : engine.clearBuffers.kill = none := hUnguarded.kill
  have hBook : engine.clearBuffers.bookFor command.instrument = some target := hTarget
  unfold newOrderPayload at hSequence
  simp only [MatchingEngine.submit, hBook, hAccount, hKill, hRisk, hSequence]
  rfl

theorem Unguarded.pursue {R : Type} (errand : Errand J R) {resting : Order}
    (hTarget : engine.bookFor errand.instrument = some target)
    (hResting : target.find errand.id = some resting)
    (hOwner : resting.account = errand.account) (now : Int) :
    engine.pursue errand now =
      errand.reach (engine.journaled errand.payload now) target resting := by
  have hSequence := hUnguarded.sequenceCommand errand.payload now
  have hBook : engine.clearBuffers.bookFor errand.instrument = some target := hTarget
  simp only [MatchingEngine.pursue, hBook, hResting, hOwner, hSequence, ne_eq, not_true,
    if_true, if_false]

end

/-! ## Obeying -/

def obey (engine : MatchingEngine J) (now : Int) : ClientCommand → MatchingEngine J × ClientReply
  | .submit command =>
    ((engine.submit command now).1, .submitted (engine.submit command now).2)
  | .cancel command =>
    ((engine.cancel command now).1, .cancelled (engine.cancel command now).2)
  | .replace command =>
    ((engine.replace command now).1, .replaced (engine.replace command now).2)

/-- What a command leaves of an unguarded engine: the same journal-independent state, or
one book changed by the command under the next number. -/
inductive Obeyed (engine : MatchingEngine J) (now : Int) (command : ClientCommand) :
    MatchingEngine J × ClientReply → Prop
  | turnedAway (engine' : MatchingEngine J) (reason : RejectReason)
      (hReason : command.refusal (engine.bookFor command.instrument) = some reason)
      (hFrame : Frame engine engine') (hBooks : engine'.books = engine.books)
      (hFills : engine'.fills = []) :
      Obeyed engine now command (engine', command.rejected reason)
  | carriedOut (engine' : MatchingEngine J) (target : OrderBook)
      (outcome : Outcome OrderBook BookReply)
      (hTarget : engine.bookFor command.instrument = some target)
      (hRefusal : command.refusal (some target) = none)
      (hOutcome : target.apply [] [] (command.stamped (engine.sequence + 1) now) = outcome)
      (hUnguarded : engine'.Unguarded)
      (hOrder : engine'.instrumentOrder = engine.instrumentOrder)
      (hSequence : engine'.sequence = engine.sequence + 1)
      (hBooks : engine'.books = engine.books.insert command.instrument outcome.book)
      (hFills : engine'.fills = outcome.fills) :
      Obeyed engine now command (engine', ClientReply.ofBook (engine.sequence + 1) outcome.result)

/-- What reaches its book is carried out. -/
theorem Reached.carriedOut {R : Type} {payload : Record → Record} {now : Int}
    (command : ClientCommand) {outcome : Outcome OrderBook R}
    {reply : MatchingEngine J × Sequenced R}
    (hReached : Reached (engine.journaled payload now) command.instrument outcome reply)
    (hUnguarded : engine.Unguarded) (hTarget : engine.bookFor command.instrument = some target)
    (hRefusal : command.refusal (some target) = none) {result : BookReply}
    (hOutcome : target.apply [] [] (command.stamped (engine.sequence + 1) now) =
      ⟨outcome.book, result, outcome.fills, outcome.withdrawals⟩) :
    Obeyed engine now command (reply.1, ClientReply.ofBook (engine.sequence + 1) result) :=
  .carriedOut _ target _ hTarget hRefusal hOutcome
    ((hUnguarded.journaled payload now).frame hReached.toFrame) hReached.instrumentOrder
    hReached.sequence hReached.books hReached.fills

theorem refuse_turnedAway (reason : RejectReason) {now : Int}
    (hReason : (ClientCommand.submit command).refusal (engine.bookFor command.instrument) =
      some reason) (hReply : engine.submit command now =
      engine.clearBuffers.refuse 0 command { reject := reason }) :
    Obeyed engine now (.submit command) (engine.obey now (.submit command)) := by
  dsimp only [obey]
  rw [hReply]
  exact .turnedAway _ reason hReason ⟨rfl, rfl, rfl, rfl, id, id⟩ rfl rfl

theorem obey_submit (hUnguarded : engine.Unguarded) (now : Int) (command : NewOrder) :
    Obeyed engine now (.submit command) (engine.obey now (.submit command)) := by
  cases hTarget : engine.bookFor command.instrument with
  | none =>
    have hBook : engine.clearBuffers.bookFor command.instrument = none := hTarget
    refine refuse_turnedAway .unknownInstrument (by rw [hTarget]; rfl) ?_
    simp only [submit, hBook]
  | some target =>
    have hBook : engine.clearBuffers.bookFor command.instrument = some target := hTarget
    cases hAccount : command.account.valid with
    | false =>
      refine refuse_turnedAway .unknownOrder ?_ ?_
      · rw [hTarget]
        simp [ClientCommand.refusal, hAccount]
      · simp [submit, hBook, hAccount]
    | true =>
      have hReached := place_reached (engine.journaled (newOrderPayload command) now) target
        command now
      dsimp only [obey]
      rw [hUnguarded.submit hTarget hAccount, hReached.answer]
      exact hReached.carriedOut (.submit command) hUnguarded hTarget
        (by simp [ClientCommand.refusal, hAccount]) rfl

theorem pursue_disowned {R : Type} (errand : Errand J R)
    (hReason : ClientCommand.disowned errand.id errand.account
      (engine.bookFor errand.instrument) = some reason) (now : Int) :
    engine.pursue errand now = (engine.clearBuffers, ⟨errand.reject reason, 0⟩) := by
  have hBook : engine.clearBuffers.bookFor errand.instrument =
      engine.bookFor errand.instrument := rfl
  unfold pursue
  dsimp only
  rw [hBook]
  rcases ClientCommand.disowned_cases hReason with ⟨hNone, rfl⟩ | ⟨target, hTarget, rfl, hForeign⟩
  · rw [hNone]
  rw [hTarget]
  cases hFind : target.find errand.id with
  | none => simp only [hFind]
  | some resting => simp only [hFind, ne_eq, hForeign resting hFind, not_false_eq_true, if_true]

section

variable (hUnguarded : engine.Unguarded)
include hUnguarded

theorem obey_cancel (now : Int) (command : CancelOrder) :
    Obeyed engine now (.cancel command) (engine.obey now (.cancel command)) := by
  have hCancel : engine.cancel command now = engine.pursue (cancelErrand command) now := rfl
  dsimp only [obey]
  rw [hCancel]
  cases hRefusal : ClientCommand.disowned command.id command.account
      (engine.bookFor command.instrument) with
  | some reason =>
    rw [pursue_disowned (cancelErrand command) hRefusal]
    exact .turnedAway _ reason hRefusal ⟨rfl, rfl, rfl, rfl, id, id⟩ rfl rfl
  | none =>
    obtain ⟨target, resting, hTarget, hResting, hOwner⟩ :=
      ClientCommand.exists_of_disowned hRefusal
    have hReached := withdraw_reached (engine.journaled (cancelPayload command) now) target command
    rw [hUnguarded.pursue (cancelErrand command) hTarget hResting hOwner]
    dsimp only [cancelErrand]
    rw [hReached.answer]
    exact hReached.carriedOut (.cancel command) hUnguarded hTarget (hTarget ▸ hRefusal) rfl

theorem obey_replace (now : Int) (command : ReplaceOrder) :
    Obeyed engine now (.replace command) (engine.obey now (.replace command)) := by
  have hReplace : engine.replace command now = engine.pursue (replaceErrand command now) now := rfl
  dsimp only [obey]
  rw [hReplace]
  cases hRefusal : ClientCommand.disowned command.id command.account
      (engine.bookFor command.instrument) with
  | some reason =>
    rw [pursue_disowned (replaceErrand command now) hRefusal]
    exact .turnedAway _ reason hRefusal ⟨rfl, rfl, rfl, rfl, id, id⟩ rfl rfl
  | none =>
    obtain ⟨target, resting, hTarget, hResting, hOwner⟩ :=
      ClientCommand.exists_of_disowned hRefusal
    have hReached := amend_reached (engine.journaled (replacePayload command) now) target resting
      command now
    rw [hUnguarded.pursue (replaceErrand command now) hTarget hResting hOwner]
    dsimp only [replaceErrand]
    rw [hReached.answer]
    exact hReached.carriedOut (.replace command) hUnguarded hTarget (hTarget ▸ hRefusal) rfl

/-- The book a command is addressed to decides what becomes of it. -/
theorem obey_cases (now : Int) (command : ClientCommand) :
    Obeyed engine now command (engine.obey now command) := by
  cases command with
  | submit command => exact obey_submit hUnguarded now command
  | cancel command => exact obey_cancel hUnguarded now command
  | replace command => exact obey_replace hUnguarded now command

theorem Unguarded.obey (now : Int) (command : ClientCommand) :
    (engine.obey now command).1.Unguarded := by
  have hCases := obey_cases hUnguarded now command
  generalize engine.obey now command = reply at hCases ⊢
  cases hCases with
  | turnedAway engine' reason hReason hFrame => exact hUnguarded.frame hFrame
  | carriedOut engine' target outcome _ _ _ hUnguarded' => exact hUnguarded'

end

section Obeyed

variable {now : Int} {command : ClientCommand} {result : MatchingEngine J × ClientReply}
  (hObeyed : Obeyed engine now command result)
include hObeyed

/-- Only the addressed book changes. -/
theorem Obeyed.bookFor_of_ne {id : InstrumentId}
    (hOther : id ≠ command.instrument) : result.1.bookFor id = engine.bookFor id := by
  cases hObeyed with
  | turnedAway engine' reason _ _ hBooks => exact congrArg (AList.lookup id) hBooks
  | carriedOut engine' target outcome _ _ _ _ _ _ hBooks =>
    rw [bookFor_of_books hBooks, if_neg hOther]

/-- No instrument comes or goes. -/
theorem Obeyed.isSome_bookFor (id : InstrumentId) :
    (result.1.bookFor id).isSome = (engine.bookFor id).isSome := by
  cases hObeyed with
  | turnedAway engine' reason _ _ hBooks =>
    exact congrArg Option.isSome (congrArg (AList.lookup id) hBooks)
  | carriedOut engine' target outcome hTarget _ _ _ _ _ hBooks =>
    rw [bookFor_of_books hBooks]
    split
    · next hId =>
        rw [hId, hTarget]
        rfl
    · rfl

/-- A command takes the next number or none. -/
theorem Obeyed.sequence :
    result.1.sequence = engine.sequence ∨ result.1.sequence = engine.sequence + 1 := by
  cases hObeyed with
  | turnedAway engine' reason _ hFrame => exact Or.inl hFrame.sequence
  | carriedOut engine' target outcome _ _ _ _ _ hSequence => exact Or.inr hSequence

theorem Obeyed.instrumentOrder : result.1.instrumentOrder = engine.instrumentOrder := by
  cases hObeyed with
  | turnedAway engine' reason _ hFrame => exact hFrame.instrumentOrder
  | carriedOut engine' target outcome _ _ _ _ hOrder => exact hOrder

theorem Obeyed.housed (hHoused : engine.Housed) : result.1.Housed := by
  cases hObeyed with
  | turnedAway engine' reason _ hFrame hBooks =>
    exact hHoused.bookStep (.still hBooks hFrame.instrumentOrder)
  | carriedOut engine' target outcome hTarget _ hOutcome _ hOrder _ hBooks =>
    exact hHoused.bookStep (.applied _ target [] [] _ hTarget (hOutcome ▸ hBooks) hOrder)

/-- Nor does the instrument of a book change. -/
theorem Obeyed.findInstrument (hHoused : engine.Housed) (id : InstrumentId) :
    result.1.findInstrument id = engine.findInstrument id := by
  unfold MatchingEngine.findInstrument
  cases hObeyed with
  | turnedAway engine' reason _ _ hBooks =>
    have hSame : engine'.bookFor id = engine.bookFor id := congrArg (AList.lookup id) hBooks
    rw [hSame]
  | carriedOut engine' target outcome hTarget _ hOutcome _ _ _ hBooks =>
    rw [bookFor_of_books hBooks]
    split
    · next hId =>
        have hKept := (hHoused _ _ hTarget).1
        rw [hId, hTarget, Option.map_some, Option.map_some, ← hOutcome, hKept.instrument_apply]
    · rfl

end Obeyed

/-! ## Two engines -/

/-- The abstract book of an instrument. -/
def absBook (engine : MatchingEngine J) (id : InstrumentId) : Option Book :=
  (engine.bookFor id).map OrderBook.abs

omit [JournalSink J] in
theorem absBook_of_books (hBooks : engine'.books = engine.books)
    (id : InstrumentId) : engine'.absBook id = engine.absBook id := by
  rw [absBook, bookFor, hBooks]
  rfl

section Renumbered

variable {other : MatchingEngine J} {f : Nat → Nat}

omit [JournalSink J] in
/-- Two books that correspond are both there or both missing. -/
theorem absBook_cases {id : InstrumentId}
    (hBooks : other.absBook id = (engine.absBook id).map (Book.renumber f)) :
    (engine.bookFor id = none ∧ other.bookFor id = none) ∨
      ∃ book book', engine.bookFor id = some book ∧ other.bookFor id = some book' ∧
        book'.abs = book.abs.renumber f := by
  unfold absBook at hBooks
  rw [Option.map_map] at hBooks
  cases hBook : engine.bookFor id with
  | none =>
    rw [hBook, Option.map_none, Option.map_eq_none_iff] at hBooks
    exact Or.inl ⟨rfl, hBooks⟩
  | some book =>
    rw [hBook, Option.map_some, Option.map_eq_some_iff] at hBooks
    obtain ⟨book', hBook', hAbs⟩ := hBooks
    exact Or.inr ⟨book, book', rfl, hBook', hAbs⟩

/-- Engines whose addressed books differ in numbers only answer a command alike up to
numbers, and it takes a number in both or in neither. -/
theorem obey_renumbered (hUnguarded : engine.Unguarded) (hUnguarded' : other.Unguarded)
    (hHoused : engine.Housed) (hHoused' : other.Housed) (hZero : f 0 = 0)
    (now : Int) (command : ClientCommand)
    (hNext : (engine.obey now command).1.sequence = engine.sequence + 1 →
      f (engine.sequence + 1) = other.sequence + 1) (hBooks : other.absBook command.instrument =
      (engine.absBook command.instrument).map (Book.renumber f)) :
    (other.obey now command).2 = (engine.obey now command).2.renumber f ∧
      (other.obey now command).1.fills = (engine.obey now command).1.fills ∧
      (other.obey now command).1.absBook command.instrument =
        ((engine.obey now command).1.absBook command.instrument).map (Book.renumber f) ∧
      (((engine.obey now command).1.sequence = engine.sequence ∧
          (other.obey now command).1.sequence = other.sequence) ∨
        ((engine.obey now command).1.sequence = engine.sequence + 1 ∧
          (other.obey now command).1.sequence = other.sequence + 1)) := by
  have hCases := obey_cases hUnguarded now command
  have hCases' := obey_cases hUnguarded' now command
  -- The same reason, if any, keeps the command from being numbered.
  have hRefusal : command.refusal (other.bookFor command.instrument) =
      command.refusal (engine.bookFor command.instrument) := by
    rcases absBook_cases hBooks with ⟨hNone, hNone'⟩ | ⟨book, book', hBook, hBook', hAbs⟩
    · rw [hNone, hNone']
    rw [hBook, hBook']
    exact ClientCommand.refusal_renumber (hHoused _ _ hBook).1.sound
      (hHoused' _ _ hBook').1.sound hAbs command
  generalize engine.obey now command = result at hCases hNext ⊢
  generalize other.obey now command = result' at hCases' ⊢
  cases hCases with
  | turnedAway engine' reason hReason hFrame hSame hFills =>
    cases hCases' with
    | turnedAway other' reason' hReason' hFrame' hSame' hFills' =>
      rw [hRefusal, hReason] at hReason'
      cases hReason'
      refine ⟨(ClientCommand.rejected_renumber hZero reason command).symm,
        hFills'.trans hFills.symm, ?_, Or.inl ⟨hFrame.sequence, hFrame'.sequence⟩⟩
      rw [absBook_of_books hSame, absBook_of_books hSame']
      exact hBooks
    | carriedOut other' target' _ hTarget' hRefusal' =>
      rw [hTarget', hReason, hRefusal'] at hRefusal
      contradiction
  | carriedOut engine' target outcome hTarget hAllowed hOutcome _ _ hSequence hSame hFills =>
    cases hCases' with
    | turnedAway other' reason' hReason' =>
      rw [hReason', hTarget, hAllowed] at hRefusal
      contradiction
    | carriedOut other' target' outcome' hTarget' _ hOutcome' _ _ hSequence' hSame' hFills' =>
      have hAbs : target'.abs = target.abs.renumber f := by
        rw [absBook, absBook, hTarget, hTarget'] at hBooks
        exact Option.some.inj hBooks
      have hApply := (hHoused _ _ hTarget).1.apply_renumber (hHoused' _ _ hTarget').1 hZero
        hAbs [] [] (command.stamped (engine.sequence + 1) now)
      rw [ClientCommand.stamped_renumber, hNext hSequence, hOutcome, hOutcome'] at hApply
      refine ⟨?_, ?_, ?_, Or.inr ⟨hSequence, hSequence'⟩⟩
      · rw [ClientReply.renumber_ofBook, hNext hSequence]
        exact congrArg (ClientReply.ofBook _) (congrArg Outcome.result hApply)
      · have hPrinted := congrArg Outcome.fills hApply
        rw [hFills, hFills']
        exact hPrinted
      · rw [absBook, absBook, bookFor_of_books hSame, bookFor_of_books hSame', if_pos rfl,
          if_pos rfl]
        exact congrArg some (congrArg Outcome.book hApply)

end Renumbered

/-! ## Runs -/

/-- A client's command with the clock reading it meets. -/
abbrev TimedCommand := ClientCommand × Int

/-- What a run of commands shows: each reply with the fills it printed. -/
def answers (engine : MatchingEngine J) : List TimedCommand → List (ClientReply × List Fill)
  | [] => []
  | (command, now) :: commands =>
    ((engine.obey now command).2, (engine.obey now command).1.fills) ::
      (engine.obey now command).1.answers commands

/-- Where a run of commands leads. -/
def after (engine : MatchingEngine J) (commands : List TimedCommand) : MatchingEngine J :=
  Machine.run (fun engine (command : TimedCommand) => (engine.obey command.2 command.1).1) engine
    commands

end MatchingEngine
end ExchangeCore
