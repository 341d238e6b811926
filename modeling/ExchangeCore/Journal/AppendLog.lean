import ExchangeCore.Core.EngineRun

/-!
# What the journal is offered

The books, the instruments and the numbering of an engine are its market state.  A
recorded command acts on the market alone: `MarketState.execute` is what it does, and
`MarketState.Admits` says that the market lets it come that far.

Whatever an event does, it either leaves the market and the journal as they are, or
offers the journal one record with the next number; if the journal takes the
record, the market goes on as the record says (`apply_recording`).  Limits, halts and
rate budgets decide which of the two it is and have no other part in it.
-/

namespace ExchangeCore

/-- The part of an engine that its recorded commands act on. -/
structure MarketState where
  books : AList fun _ : InstrumentId => OrderBook := ∅
  symbols : AList fun _ : List UInt8 => InstrumentId := ∅
  instrumentOrder : List InstrumentId := []
  sequence : Nat := 0

namespace MarketState

section

variable (market : MarketState)

def file (id : InstrumentId) (book : OrderBook) (sequence : Nat) : MarketState :=
  { market with
    books := market.books.insert id book
    sequence := sequence }

def list (instrument : Instrument) (sequence : Nat) : MarketState where
  books := market.books.insert instrument.id
    (OrderBook.create instrument instrument.expectedRestingOrders)
  symbols := market.symbols.insert instrument.symbol instrument.id
  instrumentOrder := (market.instrumentOrder ++ [instrument.id]).insertionSort
    fun a b => a.value ≤ b.value
  sequence := sequence

/-- The order a command names rests in a book of the market and is the account's
own. -/
def Owns (instrument : InstrumentId) (id : OrderId) (account : AccountId) : Prop :=
  ∃ target resting, market.books.lookup instrument = some target ∧
    target.find id = some resting ∧ resting.account = account

/-- The market has nothing against a record. -/
def Admits (record : Record) : Prop :=
  match record.type with
  | .instrumentDefined =>
    record.instrument.id.valid = true ∧ record.instrument.symbol.isEmpty = false ∧
      market.books.lookup record.instrument.id = none ∧
      market.symbols.lookup record.instrument.symbol = none
  | .newOrder =>
    (market.books.lookup record.newOrder.instrument).isSome = true ∧
      record.newOrder.account.valid = true
  | .cancelOrder =>
    market.Owns record.cancelOrder.instrument record.cancelOrder.id record.cancelOrder.account
  | .replaceOrder =>
    market.Owns record.replaceOrder.instrument record.replaceOrder.id record.replaceOrder.account

/-- What a record does to the market. -/
def execute (record : Record) : MarketState :=
  match record.type with
  | .instrumentDefined => market.list record.instrument record.sequence
  | .newOrder =>
    match market.books.lookup record.newOrder.instrument with
    | none => market
    | some target =>
      market.file record.newOrder.instrument (target.submit
          (Order.ofCommand record.newOrder record.sequence record.timestamp) [] []).book
        record.sequence
  | .cancelOrder =>
    match market.books.lookup record.cancelOrder.instrument with
    | none => market
    | some target =>
      market.file record.cancelOrder.instrument (target.cancel record.cancelOrder.id).1
        record.sequence
  | .replaceOrder =>
    match market.books.lookup record.replaceOrder.instrument with
    | none => market
    | some target =>
      market.file record.replaceOrder.instrument
        (target.replace record.replaceOrder.id record.replaceOrder.newPrice
          record.replaceOrder.newQuantity record.sequence record.timestamp [] []).book
        record.sequence

end

section Execute

variable (market : MarketState) (record : Record) {target : OrderBook}

theorem execute_newOrder (hType : record.type = .newOrder)
    (hTarget : market.books.lookup record.newOrder.instrument = some target) :
    market.execute record = market.file record.newOrder.instrument
      (target.submit
        (Order.ofCommand record.newOrder record.sequence record.timestamp) [] []).book
      record.sequence := by
  simp only [execute, hType, hTarget]

theorem execute_cancelOrder (hType : record.type = .cancelOrder)
    (hTarget : market.books.lookup record.cancelOrder.instrument = some target) :
    market.execute record = market.file record.cancelOrder.instrument
      (target.cancel record.cancelOrder.id).1 record.sequence := by
  simp only [execute, hType, hTarget]

theorem execute_replaceOrder (hType : record.type = .replaceOrder)
    (hTarget : market.books.lookup record.replaceOrder.instrument = some target) :
    market.execute record = market.file record.replaceOrder.instrument
      (target.replace record.replaceOrder.id record.replaceOrder.newPrice
        record.replaceOrder.newQuantity record.sequence record.timestamp [] []).book
      record.sequence := by
  simp only [execute, hType, hTarget]

end Execute

end MarketState

namespace MatchingEngine

variable {J : Type}

def market (engine : MatchingEngine J) : MarketState where
  books := engine.books
  symbols := engine.symbols
  instrumentOrder := engine.instrumentOrder
  sequence := engine.sequence

variable {engine engine' : MatchingEngine J}

theorem market_of_still (hStill : Still engine engine')
    (hSequence : engine'.sequence = engine.sequence) : engine'.market = engine.market := by
  rw [market, hStill.books, hStill.symbols, hStill.instrumentOrder, hSequence]
  rfl

theorem Still.file_eq (hStill : Still engine engine')
    (id : InstrumentId) (book : OrderBook) (sequence : Nat) :
    engine'.market.file id book sequence = engine.market.file id book sequence := by
  rw [MarketState.file, MarketState.file, market, market, hStill.books, hStill.symbols,
    hStill.instrumentOrder]

theorem Reached.market_eq {R : Type} {id : InstrumentId} {outcome : Outcome OrderBook R}
    {reply : MatchingEngine J × Sequenced R} (hReached : Reached engine id outcome reply) :
    reply.1.market = engine.market.file id outcome.book engine.sequence := by
  rw [market, hReached.books, hReached.symbols, hReached.instrumentOrder, hReached.sequence]
  rfl

/-! ## What an event offers -/

section Events

variable [JournalSink J]

/-- What an event did, as far as the journal and the market are concerned.  Only the
registration of an instrument offers the definition of one. -/
inductive Recording (engine : MatchingEngine J) (event : Event) (engine' : MatchingEngine J) :
    Prop
  | quiet (hJournal : engine'.journal = engine.journal) (hMarket : engine'.market = engine.market)
  | offered (record : Record) (hNumber : record.sequence = engine.sequence + 1)
      (hJournal : engine'.journal = engine.journal.map fun journal =>
        (JournalSink.append journal record record.timestamp).1)
      (hSequence : engine'.sequence = engine.sequence + 1)
      (hKind : record.type = .instrumentDefined →
        ∃ now, event = .addInstrument record.instrument now)
      (hTaken : (∀ journal, engine.journal = some journal →
          (JournalSink.append journal record record.timestamp).2 = true) →
        engine.market.Admits record ∧ engine'.market = engine.market.execute record)

variable (engine)

theorem addInstrument_recording (instrument : Instrument) (now : Int) :
    Recording engine (.addInstrument instrument now) (engine.addInstrument instrument now).1 := by
  unfold addInstrument
  split
  · exact .quiet rfl rfl
  next hValid =>
  split
  · exact .quiet rfl rfl
  next hFree =>
  simp only [Bool.or_eq_true, not_or, Bool.not_eq_true, Bool.not_eq_false', Bool.not_eq_true,
    Option.isSome_eq_false_iff, Option.isNone_iff_eq_none] at hValid hFree
  dsimp only
  rw [append_fst, append_snd]
  split
  · refine .offered _ rfl rfl rfl (fun _ => ⟨now, rfl⟩)
      fun _ => ⟨⟨?_, hValid.2, hFree.1, hFree.2⟩, rfl⟩
    exact hValid.1
  next hRefused =>
  refine .offered _ rfl rfl rfl (fun _ => ⟨now, rfl⟩) fun hAll => absurd ?_ hRefused
  cases hJournal : engine.journal with
  | none => rfl
  | some journal => exact hAll journal hJournal

variable {payload : Record → Record}

/-- A record that was not taken has an answer to show for it. -/
theorem Numbered.refused {engine engine' : MatchingEngine J}
    {now : Int} (hNumbered : Numbered engine engine' payload now false)
    (hAll : ∀ journal, engine.journal = some journal →
      (JournalSink.append journal (engine.recordOf payload now)
        (engine.recordOf payload now).timestamp).2 = true) : False := by
  cases hJournal : engine.journal with
  | none => exact absurd (hNumbered.absent hJournal) (by decide)
  | some journal =>
    have hAnswer := hNumbered.answer journal hJournal
    have hTrue := hAll journal hJournal
    rw [show (engine.recordOf payload now).timestamp = now from rfl, hAnswer] at hTrue
    cases hTrue

/-- A command that reaches its book does what its record says. -/
theorem Reached.recording {R : Type} {engine engine' : MatchingEngine J} {event : Event}
    {now : Int} {id : InstrumentId} {outcome : Outcome OrderBook R}
    {reply : MatchingEngine J × Sequenced R} (hReached : Reached engine' id outcome reply)
    (hStill : Still engine engine') (hNumbered : Numbered engine engine' payload now true)
    (hType : (engine.recordOf payload now).type ≠ .instrumentDefined)
    (hAdmits : engine.market.Admits (engine.recordOf payload now))
    (hExecute : engine.market.execute (engine.recordOf payload now) =
      engine.market.file id outcome.book (engine.sequence + 1)) :
    Recording engine event reply.1 := by
  refine .offered _ rfl (hReached.journal.trans hNumbered.journal)
    (hReached.sequence.trans hNumbered.sequence) (fun hKind => absurd hKind hType) fun _ =>
      ⟨hAdmits, ?_⟩
  rw [hReached.market_eq, hNumbered.sequence, hStill.file_eq, hExecute]

theorem submit_recording (command : NewOrder) (now : Int) :
    Recording engine (.submit command now) (engine.submit command now).1 := by
  have hCases := submit_cases engine command now
  generalize engine.submit command now = reply at hCases ⊢
  cases hCases with
  | turnedAway engine' reason _ hStill _ hSequence hJournal =>
    exact .quiet hJournal (market_of_still (hStill.refuse 0 command { reject := reason }) hSequence)
  | unrecorded engine' hStill _ hNumbered =>
    exact .offered _ rfl hNumbered.journal hNumbered.sequence nofun fun hAll =>
      (hNumbered.refused hAll).elim
  | placed engine' target hStill hFills hWithdrawals hNumbered hTarget hAccount =>
    have hReached := place_reached engine' target command now
    rw [hFills, hWithdrawals, hNumbered.sequence] at hReached
    exact hReached.recording hStill hNumbered nofun ⟨Option.isSome_of_eq_some hTarget, hAccount⟩
      (engine.market.execute_newOrder _ rfl hTarget)

theorem cancel_recording (command : CancelOrder) (now : Int) :
    Recording engine (.cancel command now) (engine.cancel command now).1 := by
  have hCases := cancel_cases engine command now
  generalize engine.cancel command now = reply at hCases ⊢
  cases hCases with
  | turnedAway => exact .quiet rfl rfl
  | unrecorded engine' hStill _ hNumbered =>
    exact .offered _ rfl hNumbered.journal hNumbered.sequence nofun fun hAll =>
      (hNumbered.refused hAll).elim
  | reached engine' target resting hStill _ _ hNumbered hTarget hResting hOwner =>
    exact (withdraw_reached engine' target command).recording hStill hNumbered nofun
      ⟨target, resting, hTarget, hResting, hOwner⟩ (engine.market.execute_cancelOrder _ rfl hTarget)

theorem replace_recording (command : ReplaceOrder) (now : Int) :
    Recording engine (.replace command now) (engine.replace command now).1 := by
  have hCases := replace_cases engine command now
  generalize engine.replace command now = reply at hCases ⊢
  cases hCases with
  | turnedAway => exact .quiet rfl rfl
  | unrecorded engine' hStill _ hNumbered =>
    exact .offered _ rfl hNumbered.journal hNumbered.sequence nofun fun hAll =>
      (hNumbered.refused hAll).elim
  | reached engine' target resting hStill hFills hWithdrawals hNumbered hTarget hResting hOwner =>
    have hReached := amend_reached engine' target resting command now
    rw [hFills, hWithdrawals, hNumbered.sequence] at hReached
    exact hReached.recording hStill hNumbered nofun ⟨target, resting, hTarget, hResting, hOwner⟩
      (engine.market.execute_replaceOrder _ rfl hTarget)

/-- Everything that can happen between an engine and its journal. -/
theorem apply_recording (event : Event) : Recording engine event (engine.apply event) := by
  cases event with
  | addInstrument instrument now => exact addInstrument_recording engine instrument now
  | submit command now => exact submit_recording engine command now
  | cancel command now => exact cancel_recording engine command now
  | replace command now => exact replace_recording engine command now
  | _ => exact .quiet rfl rfl

/-- What every append keeps of a journal, the engine's runs keep. -/
theorem forall_journal_run {P : J → Prop} (hStart : ∀ journal ∈ engine.journal, P journal)
    (hAppend : ∀ journal record, P journal →
      P (JournalSink.append journal record record.timestamp).1) (events : List Event) :
    ∀ journal ∈ (engine.run events).journal, P journal := by
  refine Machine.run_of_step (P := fun engine : MatchingEngine J =>
    ∀ journal ∈ engine.journal, P journal) hStart fun before event hBefore => ?_
  have hRecording := apply_recording before event
  generalize before.apply event = after at hRecording ⊢
  cases hRecording with
  | quiet hJournal => rwa [hJournal]
  | offered record _ hJournal =>
    rw [hJournal]
    intro journal hMem
    obtain ⟨old, hOld, rfl⟩ := Option.map_eq_some_iff.mp hMem
    exact hAppend old record (hBefore old hOld)

end Events

end MatchingEngine

/-! ## A journal with its log -/

/-- A record offered to a journal, and the answer. -/
structure Offer where
  record : Record
  taken : Bool
  deriving DecidableEq

/-- A journal together with everything it has been offered. -/
structure Logged (J : Type) where
  journal : J
  offers : List Offer := []
  deriving DecidableEq

namespace Logged

variable {J : Type}

def records (log : Logged J) : List Record := log.offers.map Offer.record

/-- Every offer has been taken. -/
def AllTaken (log : Logged J) : Prop := ∀ offer ∈ log.offers, offer.taken = true

instance : DecidablePred (AllTaken (J := J)) := fun log =>
  inferInstanceAs (Decidable (∀ offer ∈ log.offers, offer.taken = true))

instance [JournalSink J] : JournalSink (Logged J) where
  append log record now :=
    let (journal, taken) := JournalSink.append log.journal record now
    ({ journal := journal, offers := log.offers ++ [⟨record, taken⟩] }, taken)

/-- A journal that takes everything. -/
instance : JournalSink Unit where
  append _ _ _ := ((), true)

end Logged

namespace MatchingEngine

variable {J : Type}

/-- The records offered so far are numbered from one on, and the engine has come as
far. -/
def OffersNumbered (engine : MatchingEngine (Logged J)) : Prop :=
  ∃ log, engine.journal = some log ∧ log.records.map Record.sequence = List.range' 1 engine.sequence

theorem OffersNumbered.apply [JournalSink J] {engine : MatchingEngine (Logged J)}
    (hNumbered : engine.OffersNumbered) (event : Event) : (engine.apply event).OffersNumbered := by
  obtain ⟨log, hLog, hNumbers⟩ := hNumbered
  have hRecording := apply_recording engine event
  generalize engine.apply event = engine' at hRecording ⊢
  cases hRecording with
  | quiet hJournal hMarket =>
    refine ⟨log, hJournal.trans hLog, ?_⟩
    rw [show engine'.sequence = engine.sequence from congrArg MarketState.sequence hMarket]
    exact hNumbers
  | offered record hNumber hJournal hSequence =>
    rw [hLog] at hJournal
    refine ⟨_, hJournal, ?_⟩
    rw [hSequence, List.range'_concat, ← hNumbers, Logged.records, Logged.records]
    simp only [JournalSink.append, List.map_append, List.map_cons, List.map_nil, hNumber]
    rw [Nat.one_mul, Nat.add_comm]

theorem offersNumbered_run [JournalSink J] (journal : J) (risk : Option RiskEngine)
    (kill : Option KillSwitch) (events : List Event) :
    ((start (some { journal := journal : Logged J }) risk kill).run events).OffersNumbered :=
  Machine.run_of_step (P := OffersNumbered) ⟨{ journal := journal }, rfl, rfl⟩
    fun _ event hNumbered => hNumbered.apply event

end MatchingEngine
end ExchangeCore
