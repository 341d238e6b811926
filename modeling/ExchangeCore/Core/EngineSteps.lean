import ExchangeCore.Core.BookRun
import ExchangeCore.Core.MatchingEngine

/-!
# What each command of the engine can do

One case lemma per command.  A command is turned away before it is numbered, is
numbered and not recorded, or is recorded and reaches its book; in the first two
cases neither a book nor what risk has on record changes (`Still`).  Everything
proved about the engine later starts from these cases.
-/

namespace ExchangeCore

open PriceTime

namespace MatchingEngine

variable {J : Type}

/-! ## What can be read off an engine -/

section

variable (engine : MatchingEngine J) (account : AccountId)

/-- The exposure on record, nothing when no risk engine is attached. -/
def exposure (instrument : InstrumentId) : Exposure :=
  (engine.risk.map fun risk => risk.exposure account instrument).getD {}

def openOrders : Nat :=
  (engine.risk.map fun risk => risk.openOrders account).getD 0

def limitsFor : Option AccountLimits :=
  engine.risk.bind fun risk => risk.limitsFor account

/-- What an account has resting on one side of one book. -/
def holding (instrument : InstrumentId) (side : Side) : Nat :=
  ((engine.bookFor instrument).map fun book => heldBy account (book.sideOrders side)).getD 0

end

/-- Same record of exposure, open orders and limits. -/
structure SameRecord (engine engine' : MatchingEngine J) : Prop where
  attached : engine'.risk.isSome = engine.risk.isSome
  exposure : ∀ account instrument,
    engine'.exposure account instrument = engine.exposure account instrument
  openOrders : ∀ account, engine'.openOrders account = engine.openOrders account
  limits : ∀ account limits, engine.limitsFor account = some limits →
    engine'.limitsFor account = some limits

/-- Same books and same record. -/
structure Still (engine engine' : MatchingEngine J) : Prop extends SameRecord engine engine' where
  books : engine'.books = engine.books
  symbols : engine'.symbols = engine.symbols
  instrumentOrder : engine'.instrumentOrder = engine.instrumentOrder

variable {engine engine' : MatchingEngine J}

theorem SameRecord.of_risk (hRisk : engine'.risk = engine.risk) : SameRecord engine engine' where
  attached := by rw [hRisk]
  exposure := fun account instrument => by
    rw [MatchingEngine.exposure, MatchingEngine.exposure, hRisk]
  openOrders := fun account => by
    rw [MatchingEngine.openOrders, MatchingEngine.openOrders, hRisk]
  limits := fun account limits hLimits => by
    rw [limitsFor, hRisk]
    exact hLimits

theorem SameRecord.trans {a b c : MatchingEngine J} (hFirst : SameRecord a b)
    (hSecond : SameRecord b c) : SameRecord a c where
  attached := hSecond.attached.trans hFirst.attached
  exposure := fun account instrument =>
    (hSecond.exposure account instrument).trans (hFirst.exposure account instrument)
  openOrders := fun account => (hSecond.openOrders account).trans (hFirst.openOrders account)
  limits := fun account limits hLimits =>
    hSecond.limits account limits (hFirst.limits account limits hLimits)

theorem Still.of_risk (hBooks : engine'.books = engine.books)
    (hSymbols : engine'.symbols = engine.symbols)
    (hOrder : engine'.instrumentOrder = engine.instrumentOrder)
    (hRisk : engine'.risk = engine.risk) : Still engine engine' :=
  ⟨.of_risk hRisk, hBooks, hSymbols, hOrder⟩

theorem Still.trans {a b c : MatchingEngine J} (hFirst : Still a b) (hSecond : Still b c) :
    Still a c where
  toSameRecord := hFirst.toSameRecord.trans hSecond.toSameRecord
  books := hSecond.books.trans hFirst.books
  symbols := hSecond.symbols.trans hFirst.symbols
  instrumentOrder := hSecond.instrumentOrder.trans hFirst.instrumentOrder

theorem Still.bookFor (hStill : Still engine engine')
    (id : InstrumentId) : engine'.bookFor id = engine.bookFor id := by
  rw [MatchingEngine.bookFor, hStill.books]
  rfl

theorem Still.holding (hStill : Still engine engine')
    (account : AccountId) (instrument : InstrumentId) (side : Side) :
    engine'.holding account instrument side = engine.holding account instrument side := by
  rw [MatchingEngine.holding, hStill.bookFor]
  rfl

/-! ## Gates and numbering -/

section Parts

variable (engine)

/-- The record a command is journaled as. -/
def recordOf (payload : Record → Record) (now : Int) : Record :=
  { payload engine.scratchRecord with sequence := engine.sequence + 1, timestamp := now }

/-- `engine'` has numbered a command and offered its record to the journal. -/
structure Numbered [JournalSink J] (engine engine' : MatchingEngine J)
    (payload : Record → Record) (now : Int) (recorded : Bool) : Prop where
  sequence : engine'.sequence = engine.sequence + 1
  journal : engine'.journal = engine.journal.map fun journal =>
    (JournalSink.append journal (engine.recordOf payload now) now).1
  answer : ∀ journal, engine.journal = some journal →
    (JournalSink.append journal (engine.recordOf payload now) now).2 = recorded
  absent : engine.journal = none → recorded = true

/-- The journal, if there is one, takes the record of the command. -/
def Recordable [JournalSink J] (payload : Record → Record) (now : Int) : Prop :=
  ∀ journal ∈ engine.journal,
    (JournalSink.append journal (engine.recordOf payload now) now).2 = true

instance [JournalSink J] (payload : Record → Record) (now : Int) :
    Decidable (engine.Recordable payload now) :=
  inferInstanceAs (Decidable (∀ journal ∈ engine.journal, _))

theorem Numbered.recordable_iff [JournalSink J] {engine engine' : MatchingEngine J}
    {payload : Record → Record} {now : Int} {recorded : Bool}
    (hNumbered : Numbered engine engine' payload now recorded) :
    engine.Recordable payload now ↔ recorded = true := by
  constructor
  · intro hTakes
    cases hJournal : engine.journal with
    | none => exact hNumbered.absent hJournal
    | some journal =>
      rw [← hNumbered.answer journal hJournal]
      exact hTakes journal hJournal
  · rintro rfl journal hJournal
    exact hNumbered.answer journal hJournal

theorem still_clearBuffers : Still engine engine.clearBuffers :=
  Still.of_risk rfl rfl rfl rfl

theorem Still.refuse {engine engine' : MatchingEngine J} (hStill : Still engine engine')
    (sequence : Nat) (command : NewOrder) (result : SubmitResult) :
    Still engine (engine'.refuse sequence command result).1 :=
  hStill.trans (Still.of_risk rfl rfl rfl rfl)

/-- Checking risk consumes at most a rate budget and counts a reject. -/
theorem checkRisk_spec (command : NewOrder) (now : Int) :
    Still engine (engine.checkRisk command now).1 ∧
      (engine.checkRisk command now).1.fills = engine.fills ∧
      (engine.checkRisk command now).1.withdrawals = engine.withdrawals ∧
      (engine.checkRisk command now).1.sequence = engine.sequence ∧
      (engine.checkRisk command now).1.journal = engine.journal ∧
      (engine.checkRisk command now).1.scratchRecord = engine.scratchRecord ∧
      ((engine.checkRisk command now).2 = .none ↔ ∀ risk, engine.risk = some risk →
        (risk.check command now).2 = .none) := by
  unfold checkRisk
  cases hRisk : engine.risk with
  | none =>
    exact ⟨Still.of_risk rfl rfl rfl rfl, rfl, rfl, rfl, rfl, rfl, iff_of_true rfl nofun⟩
  | some risk =>
    have hStill : ∀ kill : Option KillSwitch,
        Still engine { engine with risk := some (risk.check command now).1, kill := kill } := by
      intro kill
      refine
        { books := rfl
          symbols := rfl
          instrumentOrder := rfl
          attached := by rw [hRisk]; rfl
          exposure := fun account instrument => ?_
          openOrders := fun account => ?_
          limits := fun account limits hLimits => ?_ }
      · rw [exposure, exposure, hRisk]
        exact RiskEngine.exposure_check _ _ _ _ _
      · rw [openOrders, openOrders, hRisk]
        exact RiskEngine.openOrders_check _ _ _ _
      · rw [limitsFor, hRisk] at hLimits
        exact RiskEngine.limitsFor_check _ _ _ hLimits
    dsimp only
    split
    · next hReject =>
        exact ⟨hStill _, rfl, rfl, rfl, rfl, rfl, iff_of_false hReject fun h =>
          hReject (h risk rfl)⟩
    next hPass =>
    refine ⟨hStill _, rfl, rfl, rfl, rfl, rfl, iff_of_true rfl fun other hOther => ?_⟩
    rw [← Option.some.inj hOther]
    exact not_not.mp hPass

section Append

variable [JournalSink J] (record : Record) (now : Int)

theorem append_fst : (engine.append record now).1 =
    { engine with
      journal := engine.journal.map fun journal => (JournalSink.append journal record now).1 } := by
  obtain ⟨journal, risk, kill, books, symbols, order, scratch, fills, withdrawals, notices,
    sequence⟩ := engine
  cases journal <;> rfl

theorem append_snd : (engine.append record now).2 =
    (engine.journal.map fun journal => (JournalSink.append journal record now).2).getD true := by
  unfold append
  cases engine.journal <;> rfl

/-- Journaling a command touches the journal and, when it fails, the halts. -/
theorem journalCommand_fst : ∃ kill, (engine.journalCommand record now).1 =
    { (engine.append record now).1 with kill := kill } := by
  unfold journalCommand
  dsimp only
  split
  · exact ⟨_, rfl⟩
  · exact ⟨_, rfl⟩

theorem journalCommand_snd :
    (engine.journalCommand record now).2 = (engine.append record now).2 := by
  unfold journalCommand
  dsimp only
  split
  · next h => exact h.symm
  · next h => exact (Bool.not_eq_true _ ▸ h).symm

/-- Numbering a command changes nothing but the journal's side of the engine. -/
theorem sequenceCommand_spec (payload : Record → Record) :
    Still engine (engine.sequenceCommand payload now).1 ∧
      (engine.sequenceCommand payload now).1.fills = engine.fills ∧
      (engine.sequenceCommand payload now).1.withdrawals = engine.withdrawals ∧
      Numbered engine (engine.sequenceCommand payload now).1 payload now
        (engine.sequenceCommand payload now).2 := by
  let numbered : MatchingEngine J :=
    { engine with
      sequence := engine.sequence + 1
      scratchRecord := engine.recordOf payload now }
  change Still engine (numbered.journalCommand (engine.recordOf payload now) now).1 ∧
    (numbered.journalCommand (engine.recordOf payload now) now).1.fills = engine.fills ∧
    (numbered.journalCommand (engine.recordOf payload now) now).1.withdrawals = engine.withdrawals ∧
    Numbered engine (numbered.journalCommand (engine.recordOf payload now) now).1 payload now
      (numbered.journalCommand (engine.recordOf payload now) now).2
  obtain ⟨kill, hKill⟩ := numbered.journalCommand_fst (engine.recordOf payload now) now
  rw [hKill, journalCommand_snd, append_fst, append_snd]
  refine ⟨Still.of_risk rfl rfl rfl rfl, rfl, rfl, rfl, rfl, fun journal hJournal => ?_,
    fun hNone => ?_⟩
  · show _ = (engine.journal.map _).getD true
    rw [hJournal]
    rfl
  · show (engine.journal.map _).getD true = true
    rw [hNone]
    rfl

end Append

end Parts

/-! ## Cases -/

section Cases

variable [JournalSink J]

/-- What a new-order command sets in the reused record. -/
def newOrderPayload (command : NewOrder) (record : Record) : Record :=
  { record with type := .newOrder, newOrder := command }

def cancelPayload (command : CancelOrder) (record : Record) : Record :=
  { record with type := .cancelOrder, cancelOrder := command }

def replacePayload (command : ReplaceOrder) (record : Record) : Record :=
  { record with type := .replaceOrder, replaceOrder := command }

theorem Numbered.of_same (engine : MatchingEngine J) {before engine' : MatchingEngine J}
    {payload : Record → Record} {now : Int} {recorded : Bool}
    (hNumbered : Numbered before engine' payload now recorded)
    (hSequence : before.sequence = engine.sequence) (hJournal : before.journal = engine.journal)
    (hScratch : before.scratchRecord = engine.scratchRecord) :
    Numbered engine engine' payload now recorded := by
  have hRecord : before.recordOf payload now = engine.recordOf payload now := by
    rw [recordOf, recordOf, hScratch, hSequence]
  obtain ⟨hNumber, hAppended, hAnswer, hAbsent⟩ := hNumbered
  rw [hSequence] at hNumber
  rw [hJournal, hRecord] at hAppended
  rw [hJournal, hRecord] at hAnswer
  rw [hJournal] at hAbsent
  exact ⟨hNumber, hAppended, hAnswer, hAbsent⟩

section Submission

variable (engine) (command : NewOrder) (now : Int)

/-- Nothing keeps a new order of the account from being numbered: no halt, and no
limit. -/
def Clears : Prop :=
  command.account.valid = true ∧
    (∀ kill ∈ engine.kill, kill.blocksNewOrders command.account = false) ∧
    ∀ risk ∈ engine.risk, (risk.check command now).2 = .none

instance : Decidable (engine.Clears command now) :=
  inferInstanceAs (Decidable (_ ∧ _))

inductive Submission : MatchingEngine J × Sequenced SubmitResult → Prop
  | turnedAway (engine' : MatchingEngine J) (reason : RejectReason) (hReason : reason ≠ .none)
      (hStill : Still engine engine') (hFills : engine'.fills = [])
      (hSequence : engine'.sequence = engine.sequence)
      (hJournal : engine'.journal = engine.journal)
      (hWhy : ∀ target, engine.bookFor command.instrument = some target →
        ¬ engine.Clears command now) :
      Submission (engine'.refuse 0 command { reject := reason })
  | unrecorded (engine' : MatchingEngine J) (hStill : Still engine engine')
      (hFills : engine'.fills = [])
      (hNumbered : Numbered engine engine' (newOrderPayload command) now false) :
      Submission (engine'.refuse engine'.sequence command { reject := .halted })
  | placed (engine' : MatchingEngine J) (target : OrderBook) (hStill : Still engine engine')
      (hFills : engine'.fills = []) (hWithdrawals : engine'.withdrawals = [])
      (hNumbered : Numbered engine engine' (newOrderPayload command) now true)
      (hTarget : engine.bookFor command.instrument = some target)
      (hAccount : command.account.valid = true)
      (hOpen : ∀ kill, engine.kill = some kill → kill.blocksNewOrders command.account = false)
      (hCheck : ∀ risk, engine.risk = some risk → (risk.check command now).2 = .none) :
      Submission (engine'.place target command now)

theorem submit_cases : Submission engine command now (engine.submit command now) := by
  unfold submit
  dsimp only
  have hClear := still_clearBuffers engine
  split
  · next hNone =>
      refine .turnedAway _ _ (by decide) hClear rfl rfl rfl fun target hTarget => ?_
      have hNone' : engine.bookFor command.instrument = none := hNone
      rw [hNone'] at hTarget
      contradiction
  next target hTarget =>
  split
  · next hAccount =>
      refine .turnedAway _ _ (by decide) hClear rfl rfl rfl fun _ _ hClears => ?_
      rw [hClears.1] at hAccount
      contradiction
  next hAccount =>
  split
  · next hBlocked =>
      refine .turnedAway _ _ (by decide) hClear rfl rfl rfl fun _ _ hClears => ?_
      obtain ⟨kill, hKill, hBlocks⟩ := (Option.any_eq_true ..).mp hBlocked
      rw [hClears.2.1 kill hKill] at hBlocks
      contradiction
  next hOpen =>
  obtain ⟨hStill, hFills, hWithdrawals, hSequence, hJournal, hScratch, hCheck⟩ :=
    checkRisk_spec engine.clearBuffers command now
  generalize engine.clearBuffers.checkRisk command now = checked at *
  obtain ⟨passed, reason⟩ := checked
  dsimp only at *
  split
  · next hReason =>
      exact .turnedAway _ _ hReason (hClear.trans hStill) hFills hSequence hJournal
        fun _ _ hClears => hReason (hCheck.mpr hClears.2.2)
  next hPass =>
  obtain ⟨hStill', hFills', hWithdrawals', hNumbered⟩ :=
    sequenceCommand_spec passed now (newOrderPayload command)
  have hAll := (hClear.trans hStill).trans hStill'
  change Submission engine command now
    (if (passed.sequenceCommand (newOrderPayload command) now).2 = true then
      (passed.sequenceCommand (newOrderPayload command) now).1.place target command now
    else _)
  have hNumbered' := hNumbered.of_same engine hSequence hJournal hScratch
  split
  · next hRecorded =>
      rw [hRecorded] at hNumbered'
      refine .placed _ target hAll (hFills'.trans hFills)
        (hWithdrawals'.trans hWithdrawals) hNumbered' hTarget
        (by simpa using hAccount) ?_ (hCheck.mp (not_not.mp hPass))
      intro kill hKill
      have hOpen' : ¬ (engine.kill.any fun kill =>
          kill.blocksNewOrders command.account) = true := hOpen
      rw [hKill] at hOpen'
      simpa using hOpen'
  · next hRefused =>
      rw [Bool.not_eq_true] at hRefused
      rw [hRefused] at hNumbered'
      exact .unrecorded _ hAll (hFills'.trans hFills) hNumbered'

end Submission

/-- The account has no order with this id in the book of the instrument. -/
def Foreign (engine : MatchingEngine J) (instrument : InstrumentId) (id : OrderId)
    (account : AccountId) : Prop :=
  ∀ target resting, engine.bookFor instrument = some target →
    target.find id = some resting → resting.account ≠ account

section Foreign

variable {instrument : InstrumentId} {id : OrderId} {account : AccountId} {target : OrderBook}

omit [JournalSink J]

theorem foreign_of_unlisted (hNone : engine.bookFor instrument = none) :
    engine.Foreign instrument id account := by
  intro target resting hTarget
  rw [hNone] at hTarget
  contradiction

theorem foreign_of_unknown (hTarget : engine.bookFor instrument = some target)
    (hNone : target.find id = none) : engine.Foreign instrument id account := by
  intro other resting hOther hResting
  rw [hTarget] at hOther
  rw [← Option.some.inj hOther, hNone] at hResting
  contradiction

theorem foreign_of_owner (hTarget : engine.bookFor instrument = some target) {resting : Order}
    (hResting : target.find id = some resting) (hOwner : resting.account ≠ account) :
    engine.Foreign instrument id account := by
  intro other resting' hOther hResting'
  rw [hTarget] at hOther
  rw [← Option.some.inj hOther, hResting] at hResting'
  rw [← Option.some.inj hResting']
  exact hOwner

end Foreign

/-- A command about a resting order of its account: what is recorded of it, how it is
answered when it is refused, and what it does in the order's book. -/
structure Errand (J R : Type) where
  instrument : InstrumentId
  id : OrderId
  account : AccountId
  payload : Record → Record
  reject : RejectReason → R
  reach : MatchingEngine J → OrderBook → Order → MatchingEngine J × Sequenced R

abbrev cancelErrand (command : CancelOrder) : Errand J CancelResult where
  instrument := command.instrument
  id := command.id
  account := command.account
  payload := cancelPayload command
  reject := fun reason => { reject := reason }
  reach := fun engine target _ => engine.withdraw target command

abbrev replaceErrand (command : ReplaceOrder) (now : Int) : Errand J ReplaceResult where
  instrument := command.instrument
  id := command.id
  account := command.account
  payload := replacePayload command
  reject := fun reason => { reject := reason }
  reach := fun engine target resting => engine.amend target resting command now

section Addressed

variable {R : Type} (engine) (errand : Errand J R) (now : Int)

/-- What `cancel` and `replace` have in common. -/
def pursue : MatchingEngine J × Sequenced R :=
  let engine := engine.clearBuffers
  match engine.bookFor errand.instrument with
  | none => (engine, ⟨errand.reject .unknownInstrument, 0⟩)
  | some target =>
    match target.find errand.id with
    | none => (engine, ⟨errand.reject .unknownOrder, 0⟩)
    | some resting =>
      if resting.account ≠ errand.account then
        (engine, ⟨errand.reject .unknownOrder, 0⟩)
      else
        let (engine, recorded) := engine.sequenceCommand errand.payload now
        if recorded then errand.reach engine target resting
        else (engine, ⟨errand.reject .halted, engine.sequence⟩)

inductive Addressed : MatchingEngine J × Sequenced R → Prop
  | turnedAway (reason : RejectReason)
      (hReason : reason = .unknownInstrument ∨ reason = .unknownOrder)
      (hWhy : engine.Foreign errand.instrument errand.id errand.account) :
      Addressed (engine.clearBuffers, ⟨errand.reject reason, 0⟩)
  | unrecorded (engine' : MatchingEngine J) (hStill : Still engine engine')
      (hFills : engine'.fills = [])
      (hNumbered : Numbered engine engine' errand.payload now false) :
      Addressed (engine', ⟨errand.reject .halted, engine'.sequence⟩)
  | reached (engine' : MatchingEngine J) (target : OrderBook) (resting : Order)
      (hStill : Still engine engine') (hFills : engine'.fills = [])
      (hWithdrawals : engine'.withdrawals = [])
      (hNumbered : Numbered engine engine' errand.payload now true)
      (hTarget : engine.bookFor errand.instrument = some target)
      (hResting : target.find errand.id = some resting)
      (hOwner : resting.account = errand.account) :
      Addressed (errand.reach engine' target resting)

theorem addressed_pursue : Addressed engine errand now (engine.pursue errand now) := by
  unfold pursue
  dsimp only
  have hClear := still_clearBuffers engine
  split
  · next hNone => exact .turnedAway _ (Or.inl rfl) (foreign_of_unlisted hNone)
  next target hTarget =>
  split
  · next hNone => exact .turnedAway _ (Or.inr rfl) (foreign_of_unknown hTarget hNone)
  next resting hResting =>
  split
  · next hOwner =>
      exact .turnedAway _ (Or.inr rfl) (foreign_of_owner hTarget hResting hOwner)
  next hOwner =>
  obtain ⟨hStill, hFills, hWithdrawals, hNumbered⟩ :=
    sequenceCommand_spec engine.clearBuffers now errand.payload
  have hNumbered' := hNumbered.of_same engine rfl rfl rfl
  split
  · next hRecorded =>
      rw [hRecorded] at hNumbered'
      exact .reached _ target resting (hClear.trans hStill) hFills hWithdrawals hNumbered' hTarget
        hResting (not_not.mp hOwner)
  next hRefused =>
  rw [Bool.not_eq_true] at hRefused
  rw [hRefused] at hNumbered'
  exact .unrecorded _ (hClear.trans hStill) hFills hNumbered'

end Addressed

theorem cancel_cases (engine : MatchingEngine J) (command : CancelOrder) (now : Int) :
    Addressed engine (cancelErrand command) now (engine.cancel command now) :=
  addressed_pursue ..

theorem replace_cases (engine : MatchingEngine J) (command : ReplaceOrder) (now : Int) :
    Addressed engine (replaceErrand command now) now (engine.replace command now) :=
  addressed_pursue ..

end Cases

end MatchingEngine
end ExchangeCore
