import ExchangeCore.Core.ClientCommands

/-!
# Replay

`src/journal/replayer.cpp`: an engine with nothing attached is given the records
of a journal one by one, each with the clock and the number of the original
command.

An engine with nothing attached has no reason to refuse a record that its market
admits, so a record does to it what `MarketState.execute` says.  The engine that
wrote the record did the same, whatever limits and halts it was subject to; so the
replayed market is the original one (`replay_reconstructs`).
-/

namespace ExchangeCore

open MatchingEngine

structure ReplayReport where
  instrumentsDefined : Nat := 0
  ordersSubmitted : Nat := 0
  cancelsApplied : Nat := 0
  replacesApplied : Nat := 0
  deriving DecidableEq

/-- The engine being rebuilt and the manual clock it is run on. -/
structure Replayer (J : Type) where
  engine : MatchingEngine J
  clock : Int := 0
  report : ReplayReport := {}

namespace Replayer

variable {J : Type} [JournalSink J]

/-- Apply one journaled record.  No record carries the number zero. -/
def apply (replayer : Replayer J) (record : Record) : Replayer J :=
  let clock := record.timestamp
  let engine := replayer.engine.restoreSequence (record.sequence - 1)
  let report := replayer.report
  match record.type with
  | .instrumentDefined =>
    { engine := (engine.addInstrument record.instrument clock).1
      clock := clock
      report := { report with instrumentsDefined := report.instrumentsDefined + 1 } }
  | .newOrder =>
    { engine := (engine.submit record.newOrder clock).1
      clock := clock
      report := { report with ordersSubmitted := report.ordersSubmitted + 1 } }
  | .cancelOrder =>
    { engine := (engine.cancel record.cancelOrder clock).1
      clock := clock
      report := { report with cancelsApplied := report.cancelsApplied + 1 } }
  | .replaceOrder =>
    { engine := (engine.replace record.replaceOrder clock).1
      clock := clock
      report := { report with replacesApplied := report.replacesApplied + 1 } }

def applyAll (replayer : Replayer J) (records : List Record) : Replayer J :=
  Machine.run apply replayer records

end Replayer

namespace MatchingEngine

variable {J : Type}

/-- Nothing is attached to the engine. -/
structure Plain (engine : MatchingEngine J) : Prop where
  journal : engine.journal = none
  risk : engine.risk = none
  kill : engine.kill = none

section Plain

variable {engine : MatchingEngine J}

/-- The engine as it reaches the book with a command. -/
def numbered (engine : MatchingEngine J) (payload : Record → Record) (now : Int) :
    MatchingEngine J :=
  { engine.clearBuffers with
    sequence := engine.sequence + 1
    scratchRecord := engine.recordOf payload now }

/-- What a command that reaches its book leaves of a plain engine. -/
theorem Plain.reached (hPlain : engine.Plain) {payload : Record → Record} {now : Int}
    {R : Type} {id : InstrumentId} {outcome : Outcome OrderBook R}
    {reply : MatchingEngine J × Sequenced R}
    (hReached : Reached (engine.numbered payload now) id outcome reply) :
    reply.1.market = engine.market.file id outcome.book (engine.sequence + 1) ∧ reply.1.Plain :=
  ⟨hReached.market_eq, hReached.journal.trans hPlain.journal, hReached.risk hPlain.risk,
    hReached.kill hPlain.kill⟩

variable [JournalSink J]

theorem Plain.unguarded (hPlain : engine.Plain) : engine.Unguarded := by
  refine ⟨fun journal hJournal => ?_, hPlain.risk, hPlain.kill⟩
  rw [hPlain.journal] at hJournal
  cases hJournal

theorem Plain.journaled_eq (hPlain : engine.Plain) (payload : Record → Record) (now : Int) :
    engine.journaled payload now = engine.numbered payload now := by
  unfold journaled numbered clearBuffers
  rw [hPlain.journal]
  rfl

theorem Plain.addInstrument (hPlain : engine.Plain) {instrument : Instrument}
    (hValid : instrument.id.valid = true) (hSymbol : instrument.symbol.isEmpty = false)
    (hFree : engine.bookFor instrument.id = none)
    (hUnused : engine.symbols.lookup instrument.symbol = none) (now : Int) :
    (engine.addInstrument instrument now).1 =
      { engine with sequence := engine.sequence + 1 }.register instrument := by
  simp only [MatchingEngine.addInstrument, hValid, hSymbol, hFree, hUnused, append, hPlain.journal]
  rfl

end Plain

end MatchingEngine

namespace Replayer

variable {J : Type} [JournalSink J]

/-- On an engine with nothing attached, a record does what it says. -/
theorem apply_market {replayer : Replayer J} (hPlain : replayer.engine.Plain) {record : Record}
    (hNumber : record.sequence = replayer.engine.sequence + 1)
    (hAdmits : replayer.engine.market.Admits record) :
    (replayer.apply record).engine.market = replayer.engine.market.execute record ∧
      (replayer.apply record).engine.Plain := by
  have hRestored : replayer.engine.restoreSequence (record.sequence - 1) = replayer.engine := by
    rw [hNumber]
    rfl
  unfold apply
  dsimp only
  rw [hRestored]
  unfold MarketState.Admits at hAdmits
  cases hType : record.type with
  | instrumentDefined =>
    rw [hType] at hAdmits
    obtain ⟨hValid, hSymbol, hFree, hUnused⟩ := hAdmits
    dsimp only
    rw [hPlain.addInstrument hValid hSymbol hFree hUnused]
    refine ⟨?_, hPlain.journal, hPlain.risk, hPlain.kill⟩
    simp only [MarketState.execute, hType, hNumber]
    rfl
  | newOrder =>
    rw [hType] at hAdmits
    obtain ⟨hBook, hAccount⟩ := hAdmits
    obtain ⟨target, hTarget⟩ := Option.isSome_iff_exists.mp hBook
    dsimp only
    rw [hPlain.unguarded.submit hTarget hAccount, hPlain.journaled_eq,
      MarketState.execute_newOrder _ _ hType hTarget, hNumber]
    exact hPlain.reached (place_reached ..)
  | cancelOrder =>
    rw [hType] at hAdmits
    obtain ⟨target, resting, hTarget, hResting, hOwner⟩ := hAdmits
    dsimp only
    rw [show replayer.engine.cancel record.cancelOrder _ = _ from
      hPlain.unguarded.pursue (cancelErrand _) hTarget hResting hOwner _,
      hPlain.journaled_eq, MarketState.execute_cancelOrder _ _ hType hTarget, hNumber]
    exact hPlain.reached (withdraw_reached ..)
  | replaceOrder =>
    rw [hType] at hAdmits
    obtain ⟨target, resting, hTarget, hResting, hOwner⟩ := hAdmits
    dsimp only
    rw [show replayer.engine.replace record.replaceOrder _ = _ from
      hPlain.unguarded.pursue (replaceErrand _ _) hTarget hResting hOwner _,
      hPlain.journaled_eq, MarketState.execute_replaceOrder _ _ hType hTarget, hNumber]
    exact hPlain.reached (amend_reached ..)

/-- A fresh engine to replay into. -/
def fresh : Replayer Empty where
  engine := start none none none

end Replayer

namespace MatchingEngine

variable {J : Type}

/-- As long as the journal has taken everything, replaying it leads to the same
market. -/
def Replayable (engine : MatchingEngine (Logged J)) : Prop :=
  ∃ log, engine.journal = some log ∧
    (log.AllTaken → (Replayer.fresh.applyAll log.records).engine.market = engine.market ∧
      (Replayer.fresh.applyAll log.records).engine.Plain)

theorem Replayable.apply [JournalSink J] {engine : MatchingEngine (Logged J)}
    (hReplayable : engine.Replayable) (event : Event) : (engine.apply event).Replayable := by
  obtain ⟨log, hLog, hReplay⟩ := hReplayable
  have hRecording := apply_recording engine event
  generalize engine.apply event = engine' at hRecording ⊢
  cases hRecording with
  | quiet hJournal hMarket =>
    refine ⟨log, hJournal.trans hLog, fun hAll => ?_⟩
    rw [hMarket]
    exact hReplay hAll
  | offered record hNumber hJournal hSequence _ hTaken =>
    rw [hLog] at hJournal
    refine ⟨_, hJournal, fun hAll => ?_⟩
    have hBefore : log.AllTaken := fun offer hOffer =>
      hAll offer (List.mem_append_left _ hOffer)
    have hAnswer := hAll ⟨record, _⟩ (List.mem_append_right _ (List.mem_singleton_self _))
    obtain ⟨hAdmits, hMarket⟩ := hTaken fun journal hSome => by
      cases hLog.symm.trans hSome
      exact hAnswer
    obtain ⟨hSame, hPlain⟩ := hReplay hBefore
    have hRecords : (JournalSink.append log record record.timestamp).1.records =
        log.records ++ [record] := by
      simp only [Logged.records, JournalSink.append, List.map_append, List.map_cons, List.map_nil]
    dsimp only
    rw [hRecords, Replayer.applyAll, Machine.run, List.foldl_append]
    change ((Replayer.fresh.applyAll log.records).apply record).engine.market = _ ∧ _
    have hLast := Replayer.apply_market hPlain
      (hNumber.trans (congrArg (· + 1) (congrArg MarketState.sequence hSame).symm))
      (hSame ▸ hAdmits)
    rw [hMarket, ← hSame]
    exact hLast

theorem replayable_run [JournalSink J] (journal : J) (risk : Option RiskEngine)
    (kill : Option KillSwitch) (events : List Event) :
    ((start (some { journal := journal : Logged J }) risk kill).run events).Replayable :=
  Machine.run_of_step (P := Replayable) ⟨{ journal := journal }, rfl, fun _ => ⟨rfl, rfl, rfl, rfl⟩⟩
    fun _ event hReplayable => hReplayable.apply event

/-- A journal that took every record of a run has them numbered from one on, and
replaying them into a fresh engine leads to the numbering, the instruments and the
books of the engine that wrote them.  (The source's numbers are words, and these for
fewer than `2 ^ 64` records.) -/
theorem replay_reconstructs [JournalSink J] (journal : J) (risk : Option RiskEngine)
    (kill : Option KillSwitch) (events : List Event) (log : Logged J)
    (hLog : ((start (some { journal := journal }) risk kill).run events).journal = some log)
    (hTaken : log.AllTaken) :
    let engine := (start (some { journal := journal : Logged J }) risk kill).run events
    let replayed := (Replayer.fresh.applyAll log.records).engine
    log.records.map Record.sequence = List.range' 1 log.records.length ∧
      replayed.sequence = engine.sequence ∧
      replayed.instrumentOrder = engine.instrumentOrder ∧ replayed.symbols = engine.symbols ∧
      ∀ id, replayed.bookFor id = engine.bookFor id := by
  intro engine replayed
  obtain ⟨log', hLog', hNumbers⟩ := offersNumbered_run journal risk kill events
  cases hLog.symm.trans hLog'
  obtain ⟨log', hLog', hReplay⟩ := replayable_run journal risk kill events
  cases hLog.symm.trans hLog'
  have hMarket : replayed.market = engine.market := (hReplay hTaken).1
  refine ⟨?_, congrArg MarketState.sequence hMarket, congrArg MarketState.instrumentOrder hMarket,
    congrArg MarketState.symbols hMarket, fun id => ?_⟩
  · have hCount := congrArg List.length hNumbers
    rw [List.length_map, List.length_range'] at hCount
    rw [hCount]
    exact hNumbers
  · exact congrArg (fun market => market.books.lookup id) hMarket

/-- A run with a halt in the middle, and what the book refuses after it. -/
def recordedEvents : List Event :=
  [.addInstrument (sampleListing .cancelResting) 1, .submit (sampleNewOrder 1 1 .buy 1 5 false) 2,
    .setKillSwitch (some (({} : KillSwitch).haltAccount ⟨1⟩ .manual 3)),
    .submit (sampleNewOrder 2 1 .buy 2 5 false) 4,
    .submit (sampleNewOrder 1 2 .sell 1 5 false) 5,
    .submit (sampleNewOrder 3 2 .sell 1 3 false) 6,
    .replace (sampleReplace 1 1 2 4) 7]

theorem replay_reconstructs_sample :
    ∃ log : Logged Unit,
      log.records.length = 5 ∧
        (Replayer.fresh.applyAll log.records).engine.bookFor ⟨1⟩ =
          ((start (some { journal := () : Logged Unit }) (some {}) none).run
            recordedEvents).bookFor ⟨1⟩ := by
  obtain ⟨log, hLog⟩ : ∃ log, ((start (some { journal := () : Logged Unit }) (some {}) none).run
      recordedEvents).journal = some log := ⟨_, rfl⟩
  have hTaken : log.AllTaken := by
    cases hLog
    decide +kernel
  have hLength : log.records.length = 5 := by
    cases hLog
    decide +kernel
  exact ⟨log, hLength, (replay_reconstructs () (some {}) none recordedEvents log hLog
    hTaken).2.2.2.2 ⟨1⟩⟩

end MatchingEngine

end ExchangeCore
